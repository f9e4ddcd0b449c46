/-
  File:      Irez/Levels.lean
  Subject:   `completed_index_level`: what the last UPDATE of a full index says about the
             functions of its artifact, with other processes at work.

  System.lean commits that UPDATE at any moment. Here the full index loop (service.cpp
  428-445) is a part of the state: the handles it read and has not materialized yet. A
  ghost column of it records whether a function was reset or lost meanwhile.

  * `Session.Step` -- the steps of System.lean, with the loops of the processes;
  * `Registered` -- rows and entities agree in every world; `Registered.step`;
  * `World.Covered` -- a row that is ready, or a live process will see to it;
  * `Truthful` -- what a full level and a loop under way say about rows (`Truthful.step`);
  * `full_level_tells_the_truth` -- on every run that meets `tellsTruth`;
  * `full_level_lies` -- two runs that do not.
-/
import Irez.Roster

open Irez.Basis

namespace Irez

/-! ## 1. Full indexes under way -/

/-- A full index: its artifact, the handles still to be materialized, and whether a function
    of the artifact was reset or lost since they were read. -/
structure FullIndex where
  artifact : String
  todo : List String
  disturbed : Bool
  deriving DecidableEq, Repr

structure Session where
  world : World
  loop : Nat → Option FullIndex

inductive SessionLabel where
  | silent
  | commit (l : Label)
  | complete (p : Nat)
  | leave (p : Nat)

/-- The artifact of a function that stays claimed, or failed, where the process gives up. -/
def World.drops (w : World) (p : Nat) : Option String :=
  match w.phase p with
  | .analysing target d =>
    if w.db.materializations.any fun m =>
      m.functionId = target.handle && m.claimOwner = some d.owner
    then some target.artifact.id else none
  | _ => none

/-- The artifact of which a step resets or loses a function. -/
def World.disturbs (w : World) : SessionLabel → Option String
  | .commit (.publishCatalog p _) => (w.phase p).artifact.map (·.id)
  | .commit (.fail p) => w.drops p
  | .leave p => w.drops p
  | _ => none

def FullIndex.after (disturbed : Option String) (L : FullIndex) : FullIndex :=
  { L with disturbed := L.disturbed || disturbed = some L.artifact }

/-- The loops after a transaction: a publish does the first handle, a failure ends the loop. -/
def Session.advance (s : Session) (l : Label) (q : Nat) : Option FullIndex :=
  let L := (s.loop q).map (FullIndex.after (s.world.disturbs (.commit l)))
  match l with
  | .publish p _ => if q = p then L.map fun L => { L with todo := L.todo.tail } else L
  | .fail p => if q = p then none else L
  | _ => L

def Session.setLoop (s : Session) (p : Nat) (L : Option FullIndex) : Session :=
  { s with loop := Function.update s.loop p L }

@[simp] theorem Session.setLoop_world (s : Session) (p : Nat) (L : Option FullIndex) :
    (s.setLoop p L).world = s.world := rfl

inductive Session.Step : Session → SessionLabel → Session → Prop where
  /-- No claim is let go, no loop moves, and no artifact is completed. -/
  | silent {s : Session} {w' : World} (hs : World.Step s.world .silent w')
      (hphase : ∀ q, w'.phase q = s.world.phase q ∨
        (s.loop q = none ∧ (s.world.phase q).claim = none))
      (hlevel : ∀ a' ∈ w'.db.artifacts, a'.completedIndexLevel = .full →
        ∃ a ∈ s.world.db.artifacts, a.id = a'.id ∧ a.completedIndexLevel = .full) :
      Session.Step s .silent { s with world := w' }
  /-- The handles are read. -/
  | begin {s : Session} {p : Nat} {a : Artifact} (hp : s.world.phase p = .idle)
      (ha : a ∈ s.world.db.artifacts) :
      Session.Step s .silent (s.setLoop p (some ⟨a.id, s.world.db.definedFunctions a.id, false⟩))
  /-- `materialize(handle)` reads its target. -/
  | enter {s : Session} {p : Nat} {L : FullIndex} {handle : String} {rest : List String}
      {target : Target} (hl : s.loop p = some L) (htodo : L.todo = handle :: rest)
      (hp : s.world.phase p = .idle)
      (h : Irez.enter s.world.db.toTables handle false = .ok (.analyse target)) :
      Session.Step s .silent { s with world := s.world.move p (.entered target) }
  /-- It answers from the cache, or a declaration. -/
  | answered {s : Session} {p : Nat} {L : FullIndex} {handle : String} {rest : List String}
      {response : Materialized} (hl : s.loop p = some L) (htodo : L.todo = handle :: rest)
      (hp : s.world.phase p = .idle)
      (h : Irez.enter s.world.db.toTables handle false = .ok (.answered response)) :
      Session.Step s .silent (s.setLoop p (some { L with todo := rest }))
  /-- A transaction of any process; what it publishes is a stream of the adapter. -/
  | commit {s : Session} {l : Label} {w' : World} (hs : World.Step s.world l w')
      (hl : l ≠ .silent) (hstream : ∀ p records, l = .publish p records → FromAdapter records) :
      Session.Step s (.commit l) { world := w', loop := s.advance l }
  /-- `completed_index_level='full'`. -/
  | complete {s : Session} {p : Nat} {L : FullIndex} {io : Faults} {db' : Database}
      (hl : s.loop p = some L) (htodo : L.todo = []) (hp : s.world.phase p = .idle)
      (h : exec io (.completeFull L.artifact) s.world.db = .ok db') :
      Session.Step s (.complete p)
        { world := { s.world with db := db' }, loop := Function.update s.loop p none }
  /-- An exception that leaves the call, or a crash. -/
  | leave {s : Session} {p : Nat} :
      Session.Step s (.leave p)
        { world := s.world.move p .idle
          loop := Function.update
            (fun q => (s.loop q).map (FullIndex.after (s.world.disturbs (.leave p)))) p none }

/-- The steps of a session are steps of its world. -/
theorem Session.Step.world {s s' : Session} {l : SessionLabel} (hs : Session.Step s l s') :
    ∃ l', s'.world = s.world ∨ World.Step s.world l' s'.world := by
  cases hs with
  | silent hs _ _ => exact ⟨_, .inr hs⟩
  | begin _ _ => exact ⟨.silent, .inl rfl⟩
  | enter _ _ hp h => exact ⟨_, .inr (.enter hp h)⟩
  | answered _ _ _ _ => exact ⟨.silent, .inl rfl⟩
  | commit hs _ _ => exact ⟨_, .inr hs⟩
  | complete _ _ _ h => exact ⟨_, .inr (.mark ⟨_, .inr rfl⟩ h)⟩
  | leave => exact ⟨_, .inr .leave⟩

/-- A condition on the step that is taken next. -/
abbrev SessionCondition := Session → SessionLabel → Prop

/-- The sessions reached from an initial world, without loops, by steps that meet `C`. -/
def SessionRuns (C : SessionCondition) (s : Session) : Prop :=
  ∃ s₀ : Session, s₀.world.Initial ∧ (∀ p, s₀.loop p = none) ∧
    Relation.ReflTransGen (fun s s' => ∃ l, Session.Step s l s' ∧ C s l) s₀ s

theorem SessionRuns.invariant {C : SessionCondition} {I : Session → Prop}
    (h₀ : ∀ s : Session, s.world.Initial → (∀ p, s.loop p = none) → I s)
    (hstep : ∀ {s l s'}, I s → Session.Step s l s' → C s l → I s') {s : Session}
    (h : SessionRuns C s) : I s := by
  obtain ⟨s₀, hinit, hloop, hrun⟩ := h
  induction hrun with
  | refl => exact h₀ _ hinit hloop
  | tail _ hnext ih =>
    obtain ⟨l, hs, hc⟩ := hnext
    exact hstep ih hs hc

/-- **A run of sessions is a run of the system.** -/
theorem SessionRuns.world {C : SessionCondition} {s : Session} (h : SessionRuns C s) :
    Runs anyStep s.world := by
  obtain ⟨s₀, hinit, _, hrun⟩ := h
  refine ⟨s₀.world, hinit, ?_⟩
  induction hrun with
  | refl => exact .refl
  | tail _ hnext ih =>
    obtain ⟨l, hs, _⟩ := hnext
    obtain ⟨l', heq | hstep⟩ := hs.world
    · rw [heq]
      exact ih
    · exact ih.tail ⟨l', hstep, trivial⟩

/-! ## 2. Rows and entities agree -/

structure Registered (w : World) : Prop where
  grounded : Grounded w
  claimed : WellClaimed w.db.toTables
  filed : Filed w.db.toTables
  undeclared : Undeclared w.db.toTables
  entered : ∀ p target, w.phase p = .entered target → target.Named
  analysing : ∀ p target d, w.phase p = .analysing target d → target.Named

/-- No claim is committed on a declaration. -/
def World.ClaimsDefined (w : World) (p : Nat) : Prop :=
  ∀ target, w.phase p = .entered target → ∀ m ∈ w.db.materializations,
    m.functionId = target.handle → m.status ≠ .declarationOnly

section Registered

variable {w w' : World}

/-- The row of a function lies in the artifact of the process that analyses it. -/
theorem Registered.row_artifact (h : Registered w) {p : Nat} {target : Target} {d : ClaimDraw}
    (hp : w.phase p = .analysing target d) {m : Materialization} (hm : m ∈ w.db.materializations)
    (hid : m.functionId = target.handle) : m.artifactId = target.artifact.id := by
  obtain ⟨b, hb, hbid, hsha⟩ := h.grounded.stores p _ (by rw [hp]; rfl)
  obtain ⟨c, hc, hcid, key, hkey⟩ := h.grounded.rooted.materializations m hm
  have hname : entityId c (functionLocal key) = entityId b (functionLocal target.key) := by
    rw [← hkey, hid, h.analysing p target d hp]
    exact entityId_congr hsha.symm _
  obtain ⟨hshort, _⟩ := entityId_inj (h.filed.artifacts c hc).length (h.filed.artifacts b hb).length
    (colon_mem_functionLocal _) (colon_mem_functionLocal _) hname
  rw [← hcid, ← hbid, (h.filed.artifacts c hc).id, (h.filed.artifacts b hb).id, hshort]

/-- The targets after one process has moved on. -/
theorem Registered.phases (h : Registered w) {p : Nat} {phase : Phase}
    (hphase : w'.phase = Function.update w.phase p phase)
    (hentered : ∀ target, phase = .entered target → target.Named)
    (hanalysing : ∀ target d, phase = .analysing target d → target.Named) :
    (∀ q target, w'.phase q = .entered target → target.Named) ∧
      ∀ q target d, w'.phase q = .analysing target d → target.Named := by
  refine ⟨fun q target hq => ?_, fun q target d hq => ?_⟩
  · rw [hphase] at hq
    by_cases hqp : q = p
    · rw [hqp, Function.update_self] at hq
      exact hentered target hq
    · rw [Function.update_of_ne hqp] at hq
      exact h.entered q target hq
  · rw [hphase] at hq
    by_cases hqp : q = p
    · rw [hqp, Function.update_self] at hq
      exact hanalysing target d hq
    · rw [Function.update_of_ne hqp] at hq
      exact h.analysing q target d hq

/-- Tables in which entities and rows are as before, up to claims of defined functions. -/
theorem Registered.move (h : Registered w) (hg : Grounded w') (hc : WellClaimed w'.db.toTables)
    {p : Nat} {phase : Phase} (hphase : w'.phase = Function.update w.phase p phase)
    (hentered : ∀ target, phase = .entered target → target.Named)
    (hanalysing : ∀ target d, phase = .analysing target d → target.Named)
    (ha : SameArtifacts w.db.toTables w'.db.toTables) (he : w'.db.entities = w.db.entities)
    (hm : ∀ m' ∈ w'.db.materializations, m'.status ≠ .declarationOnly →
      ∃ m ∈ w.db.materializations, m.functionId = m'.functionId ∧ m.status ≠ .declarationOnly) :
    Registered w' where
  grounded := hg
  claimed := hc
  filed := h.filed.of_entities ha (by rw [he]; exact h.filed.entities)
  undeclared := by
    refine h.undeclared.of_le hm fun e' he' _ _ _ hd => ?_
    rw [he] at he'
    exact ⟨e', he', rfl, hd⟩
  entered := (h.phases hphase hentered hanalysing).1
  analysing := (h.phases hphase hentered hanalysing).2

/-- Tables in which only rows of `artifacts`, runs and the investigation change. -/
theorem Registered.tables (h : Registered w) (hg : Grounded w') (hc : WellClaimed w'.db.toTables)
    (hphase : w'.phase = w.phase) (hf : Filed w'.db.toTables)
    (he : w'.db.entities = w.db.entities)
    (hm : w'.db.materializations = w.db.materializations) : Registered w' where
  grounded := hg
  claimed := hc
  filed := hf
  undeclared := by
    intro m hm'
    rw [hm] at hm'
    rw [he]
    exact h.undeclared m hm'
  entered := by
    rw [hphase]
    exact h.entered
  analysing := by
    rw [hphase]
    exact h.analysing

/-- **One step keeps rows and entities in agreement.** -/
theorem Registered.step {l : Label} (h : Registered w) (hs : World.Step w l w')
    (hstream : ∀ p records, l = .publish p records → FromAdapter records)
    (hdefined : ∀ p, l = .claim p → w.ClaimsDefined p) : Registered w' := by
  have hg : Grounded w' := h.grounded.step hs
  have hc : WellClaimed w'.db.toTables := h.claimed.step hs
  -- a process moves on, and the database is as it was
  have hstill : ∀ {p : Nat} {phase : Phase}, w' = w.move p phase →
      (∀ target, phase = .entered target → target.Named) →
      (∀ target d, phase ≠ .analysing target d) → Registered w' := by
    intro p phase heq hent hno
    have hphase : w'.phase = Function.update w.phase p phase := by
      rw [heq]
      rfl
    have hdb : w'.db = w.db := by
      rw [heq]
      rfl
    refine h.move hg hc hphase hent (fun target d ht => absurd ht (hno target d)) (.of_eq (by rw [hdb]))
      (by rw [hdb]) fun m hm hst => ⟨m, by rwa [hdb] at hm, rfl, hst⟩
  cases hs with
  | tick _ => exact h.tables hg hc rfl h.filed rfl rfl
  | @init row db' _ ht =>
    have hf : Filed db'.toTables :=
      h.filed.of_entities (.of_eq (by rw [ht])) (by rw [ht]; exact h.filed.entities)
    exact h.tables hg hc rfl hf (by rw [ht]) (by rw [ht])
  | @store io a db' ha _ he =>
    have ht : db'.toTables = (Statement.insertArtifact a).effect w.db.toTables := exec_ok he
    have hf : Filed db'.toTables := by
      rw [ht]
      exact h.filed.insertArtifact ha
    exact h.tables hg hc rfl hf (by rw [ht]; rfl) (by rw [ht]; rfl)
  | @mark io s db' hm he =>
    have ht := exec_ok he
    have hsame : SameArtifacts w.db.toTables db'.toTables := by
      rw [ht]
      exact Statement.sameArtifacts
        (by obtain ⟨id, rfl | rfl⟩ := hm <;> exact fun _ => Statement.noConfusion) _
    have hrows : db'.entities = w.db.entities ∧ db'.materializations = w.db.materializations := by
      rw [ht]
      obtain ⟨id, rfl | rfl⟩ := hm
      · exact ⟨rfl, rfl⟩
      · exact ⟨rfl, rfl⟩
    have hf : Filed db'.toTables :=
      h.filed.of_entities hsame (by rw [hrows.1]; exact h.filed.entities)
    exact h.tables hg hc rfl hf hrows.1 hrows.2
  | @enter p handle refresh target hp hent =>
    refine hstill rfl (fun target' ht => ?_) fun _ _ => Phase.noConfusion
    cases ht
    exact (h.filed.enter hent).2
  | @claim p io d target db' hp hd hcl =>
    obtain ⟨_, _, _, _, ht⟩ := claimFunction_ok hcl
    have hmats : db'.materializations = _ := congrArg Tables.materializations ht
    refine h.move hg hc rfl (fun _ => Phase.noConfusion) (fun target' d' he => ?_)
      (.of_eq (by rw [ht])) (by rw [ht]) fun m' hm' hst => ?_
    · cases he
      exact h.entered p target hp
    · have hm' : m' ∈ db'.materializations := hm'
      rw [hmats] at hm'
      obtain ⟨m, hm, rfl⟩ := mem_updateWhere.mp hm'
      refine ⟨m, hm, ?_⟩
      split
      · rename_i hcond
        rw [Bool.and_eq_true, decide_eq_true_eq] at hcond
        exact ⟨rfl, hdefined p rfl target hp m hm hcond.1⟩
      · rename_i hcond
        rw [if_neg hcond] at hst
        exact ⟨rfl, hst⟩
  | @publish p io d target draw records db' hp he =>
    have hstores : w.db.Stores target.artifact := h.grounded.stores p _ (by rw [hp]; rfl)
    have hsorted : ∀ e ∈ entityRecords records, e.Sorted :=
      fun e he => (hstream p records rfl).sorted he
    have hf := Publish.exec_filed h.filed hstores hsorted he
    have hu := h.undeclared.publish h.filed h.grounded.rooted h.claimed hstores hsorted he
    obtain ⟨hentered, hanalysing⟩ := @Registered.phases w { w.move p .idle with db := db' } h p
      .idle rfl (fun _ => Phase.noConfusion) fun _ _ => Phase.noConfusion
    exact ⟨hg, hc, hf.2, hu, hentered, hanalysing⟩
  | @fail p io d target message endedAt db' hp he =>
    have ht := failFunction_ok he
    have hmats : db'.materializations = _ := congrArg Tables.materializations ht
    refine h.move hg hc rfl (fun _ => Phase.noConfusion) (fun _ _ => Phase.noConfusion)
      (.of_eq (by rw [ht])) (by rw [ht]) fun m' hm' hst => ?_
    have hm' : m' ∈ db'.materializations := hm'
    rw [hmats] at hm'
    obtain ⟨m, hm, rfl⟩ := mem_updateWhere.mp hm'
    refine ⟨m, hm, ?_⟩
    split
    · rename_i hcond
      rw [Bool.and_eq_true, decide_eq_true_eq, decide_eq_true_eq] at hcond
      have hstatus := (h.claimed.materializations m hm).1.mpr (by rw [hcond.2]; rfl)
      exact ⟨rfl, by rw [hstatus]; decide⟩
    · rename_i hcond
      rw [if_neg hcond] at hst
      exact ⟨rfl, hst⟩
  | ingest _ _ => exact hstill rfl (fun _ => Phase.noConfusion) fun _ _ => Phase.noConfusion
  | @claimCatalog p io d a index db' hp hd hcl =>
    obtain ⟨run, _, ht⟩ := claimCatalog_effects hcl
    have hrows : db'.materializations = w.db.materializations := by rw [ht]; rfl
    refine h.move hg hc rfl (fun _ => Phase.noConfusion) (fun _ _ => Phase.noConfusion) ?_
      (by rw [ht]; rfl) fun m hm hst => ⟨m, by rwa [← hrows], rfl, hst⟩
    refine ⟨fun a' ha' => ?_, fun a' ha' => ?_⟩
    · obtain ⟨_, _, _, _, ht'⟩ := claimCatalog_ok hcl
      rw [show db'.artifacts = _ from congrArg Tables.artifacts ht'] at ha'
      obtain ⟨a₁, ha₁, rfl⟩ := mem_updateWhere.mp ha'
      obtain ⟨a₂, ha₂, rfl⟩ := mem_updateWhere.mp ha₁
      refine ⟨a₂, ha₂, ?_⟩
      constructor <;> (repeat' split) <;> rfl
    · have hst : w.db.Stores a' := ⟨a', ha', rfl, rfl⟩
      have hst' := hst.effects [.claimCatalog d.owner d.claimedAt d.now index a.id,
        .insertRun run, .setCatalogRun d.runId a.id]
      rw [← ht] at hst'
      exact hst'
  | @publishCatalog p io d a module records endedAt db' hp he =>
    have hstores : w.db.Stores a := h.grounded.stores p a (by rw [hp]; rfl)
    have hf : Filed db'.toTables := by
      rw [transaction_ok he]
      exact h.filed.effects hstores (publishCatalogStatements_files _ _ _ _ _)
    have hu := h.undeclared.publishCatalog h.filed h.grounded.rooted hstores he
    obtain ⟨hentered, hanalysing⟩ := @Registered.phases w { w.move p .idle with db := db' } h p
      .idle rfl (fun _ => Phase.noConfusion) fun _ _ => Phase.noConfusion
    exact ⟨hg, hc, hf, hu, hentered, hanalysing⟩
  | @failCatalog p io d a message endedAt db' hp he =>
    have ht := failCatalog_ok he
    have hrows : db'.materializations = w.db.materializations := by rw [ht]
    refine h.move hg hc rfl (fun _ => Phase.noConfusion) (fun _ _ => Phase.noConfusion)
      (.update (congrArg Tables.artifacts ht) fun _ => ⟨rfl, rfl⟩) (by rw [ht])
      fun m hm hst => ⟨m, by rwa [← hrows], rfl, hst⟩
  | leave => exact hstill rfl (fun _ => Phase.noConfusion) fun _ _ => Phase.noConfusion

end Registered

/-! ## 3. Rows that are seen to -/

/-- The row is ready or a declaration's, or a process under way holds its claim. -/
def World.Covered (w : World) (m : Materialization) : Prop :=
  m.status = .declarationOnly ∨ m.status = .structureReady ∨ ∃ q target d,
    w.phase q = .analysing target d ∧ target.handle = m.functionId ∧ m.claimOwner = some d.owner

/-- A claim that is held is dropped where its process gives up. -/
theorem World.drops_of_held {w : World} {p : Nat} {target : Target} {d : ClaimDraw}
    (hp : w.phase p = .analysing target d) {m : Materialization} (hm : m ∈ w.db.materializations)
    (hid : target.handle = m.functionId) (ho : m.claimOwner = some d.owner) :
    w.drops p = some target.artifact.id := by
  unfold World.drops
  rw [hp]
  have hany : (w.db.materializations.any fun m =>
      m.functionId = target.handle && m.claimOwner = some d.owner) = true :=
    List.any_eq_true.mpr ⟨m, hm, by simp [hid, ho]⟩
  simp only [hany, if_true]

/-- The steps without a transaction on functions leave the rows. -/
theorem World.Step.silent_rows {w w' : World} (hs : World.Step w .silent w') :
    w'.db.materializations = w.db.materializations := by
  cases hs with
  | init _ ht => rw [ht]
  | store _ _ he =>
    rw [exec_ok he]
    rfl
  | mark hm he =>
    rw [exec_ok he]
    obtain ⟨id, rfl | rfl⟩ := hm
    · rfl
    · rfl
  | _ => rfl

section Covered

variable {w w' : World} {m : Materialization}

/-- A row stays covered where processes that analyse are not disturbed. -/
theorem World.Covered.of_phases (h : w.Covered m)
    (hphase : ∀ q target d, w.phase q = .analysing target d → target.handle = m.functionId →
      m.claimOwner = some d.owner → w'.phase q = .analysing target d) : w'.Covered m := by
  rcases h with h | h | ⟨q, target, d, hq, hid, ho⟩
  · exact .inl h
  · exact .inr (.inl h)
  · exact .inr (.inr ⟨q, target, d, hphase q target d hq hid ho, hid, ho⟩)

/-- One process that does not analyse moves on. -/
theorem World.Covered.move (h : w.Covered m) {p : Nat} {phase : Phase}
    (hp : ∀ target d, w.phase p ≠ .analysing target d)
    (hphase : w'.phase = Function.update w.phase p phase) : w'.Covered m := by
  refine h.of_phases fun q target d hq _ _ => ?_
  rw [hphase, Function.update_of_ne]
  · exact hq
  · rintro rfl
    exact hp target d hq

/-- A process lets go of a claim that is not on the row. -/
theorem World.Covered.release (h : w.Covered m) {p : Nat} {target : Target} {d : ClaimDraw}
    (hp : w.phase p = .analysing target d)
    (hm : ¬ (decide (m.functionId = target.handle) && decide (m.claimOwner = some d.owner)) = true)
    (hphase : w'.phase = Function.update w.phase p .idle) : w'.Covered m := by
  refine h.of_phases fun q target' d' hq hid ho => ?_
  have hne : q ≠ p := by
    rintro rfl
    rw [hp] at hq
    cases hq
    exact hm (by simp [hid, ho])
  rw [hphase, Function.update_of_ne hne]
  exact hq

end Covered

/-- **A transaction disturbs no row of an artifact it does not name**: such a row comes from one
    that it covers as well as before. -/
theorem World.Step.covered {w w' : World} {l : Label} (h : Registered w) (hs : World.Step w l w')
    (hl : l ≠ .silent) (hstream : ∀ p records, l = .publish p records → FromAdapter records)
    {m' : Materialization} (hm' : m' ∈ w'.db.materializations)
    (hd : w.disturbs (.commit l) ≠ some m'.artifactId) :
    ∃ m ∈ w.db.materializations, m.functionId = m'.functionId ∧
      m.artifactId = m'.artifactId ∧ (w.Covered m → w'.Covered m') := by
  cases hs with
  | tick | init | store | mark | enter | ingest | leave => exact absurd rfl hl
  | @claim p io d target db' hp _ hcl =>
    obtain ⟨_, _, _, _, ht⟩ := claimFunction_ok hcl
    have hmats : db'.materializations = _ := congrArg Tables.materializations ht
    have hm' : m' ∈ db'.materializations := hm'
    rw [hmats] at hm'
    obtain ⟨m, hm, rfl⟩ := mem_updateWhere.mp hm'
    by_cases hcond : (decide (m.functionId = target.handle) && m.claimable d.now) = true
    · -- the row is this process's now
      rw [if_pos hcond]
      rw [Bool.and_eq_true, decide_eq_true_eq] at hcond
      refine ⟨m, hm, rfl, rfl, fun _ => .inr (.inr ⟨p, target, d, ?_, hcond.1.symm, rfl⟩)⟩
      exact move_phase (w := w) _
    · rw [if_neg hcond]
      refine ⟨m, hm, rfl, rfl, fun hc => hc.move (fun target' d' hq => ?_) rfl⟩
      rw [hp] at hq
      cases hq
  | @publish p io d target draw records db' hp he =>
    have hstores : w.db.Stores target.artifact := h.grounded.stores p _ (by rw [hp]; rfl)
    have hsorted : ∀ e ∈ entityRecords records, e.Sorted :=
      fun e he => (hstream p records rfl).sorted he
    have hfiled := (Publish.exec_filed h.filed hstores hsorted he).1
    have hnamed := Publish.functionId_of_filed hfiled hstores (h.analysing p target d hp)
    have hmats : db'.materializations = updateWhere
        (fun m => m.functionId = target.handle && m.claimOwner = some d.owner)
        (Materialization.published d.runId) w.db.materializations := by
      obtain ⟨_, hmats, _⟩ := Publish.exec_tested he
      rw [hnamed] at hmats
      exact hmats
    have hm' : m' ∈ db'.materializations := hm'
    rw [hmats] at hm'
    obtain ⟨m, hm, rfl⟩ := mem_updateWhere.mp hm'
    by_cases hcond : (decide (m.functionId = target.handle) &&
        decide (m.claimOwner = some d.owner)) = true
    · rw [if_pos hcond]
      exact ⟨m, hm, rfl, rfl, fun _ => .inr (.inl rfl)⟩
    · rw [if_neg hcond]
      exact ⟨m, hm, rfl, rfl, fun hc => hc.release hp hcond rfl⟩
  | @fail p io d target message endedAt db' hp he =>
    have ht := failFunction_ok he
    have hmats : db'.materializations = _ := congrArg Tables.materializations ht
    have hm' : m' ∈ db'.materializations := hm'
    rw [hmats] at hm'
    obtain ⟨m, hm, rfl⟩ := mem_updateWhere.mp hm'
    by_cases hcond : (decide (m.functionId = target.handle) &&
        decide (m.claimOwner = some d.owner)) = true
    · -- the failed row is one the step names
      rw [if_pos hcond] at hd
      rw [Bool.and_eq_true, decide_eq_true_eq, decide_eq_true_eq] at hcond
      refine absurd ?_ hd
      show w.drops p = some m.artifactId
      rw [World.drops_of_held hp hm hcond.1.symm hcond.2, h.row_artifact hp hm hcond.1]
    · rw [if_neg hcond]
      exact ⟨m, hm, rfl, rfl, fun hc => hc.release hp hcond rfl⟩
  | @claimCatalog p io d a index db' hp _ hcl =>
    obtain ⟨_, _, _, _, ht⟩ := claimCatalog_ok hcl
    have hm' : m' ∈ db'.materializations := hm'
    rw [show db'.materializations = _ from congrArg Tables.materializations ht] at hm'
    refine ⟨m', hm', rfl, rfl, fun hc => hc.move (fun target d hq => ?_) rfl⟩
    rw [hp] at hq
    cases hq
  | @publishCatalog p io d a module records endedAt db' hp he =>
    obtain ⟨_, _, hmats⟩ := publishCatalog_claims he
    have hm' : m' ∈ db'.materializations := hm'
    rw [hmats] at hm'
    have hkeep : ∀ n m, Materialization.pair (Materialization.recatalog n m) =
        Materialization.pair m := fun _ _ => rfl
    rcases of_mem_upsertAll hkeep hm' with ⟨hm, _⟩ | ⟨new, hnew, hpair, _⟩
    · refine ⟨m', hm, rfl, rfl, fun hc => hc.move (fun target d hq => ?_) rfl⟩
      rw [hp] at hq
      cases hq
    · -- a row of the catalog lies in its artifact
      obtain ⟨f, _, rfl⟩ := List.mem_map.mp hnew
      refine absurd ?_ hd
      show (w.phase p).artifact.map (·.id) = _
      rw [hp]
      exact congrArg some (Prod.mk.inj hpair).1
  | @failCatalog p io d a message endedAt db' hp he =>
    have ht := failCatalog_ok he
    have hm' : m' ∈ db'.materializations := hm'
    rw [show db'.materializations = _ from congrArg Tables.materializations ht] at hm'
    refine ⟨m', hm', rfl, rfl, fun hc => hc.move (fun target d hq => ?_) rfl⟩
    rw [hp] at hq
    cases hq

/-- **Nor does any other step.** -/
theorem Session.Step.covered {s s' : Session} {l : SessionLabel} (h : Registered s.world)
    (hs : Session.Step s l s') {m' : Materialization} (hm' : m' ∈ s'.world.db.materializations)
    (hd : s.world.disturbs l ≠ some m'.artifactId) :
    ∃ m ∈ s.world.db.materializations, m.functionId = m'.functionId ∧
      m.artifactId = m'.artifactId ∧ (s.world.Covered m → s'.world.Covered m') := by
  cases hs with
  | @silent w' hs hphase _ =>
    rw [hs.silent_rows] at hm'
    refine ⟨m', hm', rfl, rfl, fun hc => hc.of_phases fun q target d hq _ _ => ?_⟩
    rcases hphase q with heq | ⟨_, hnone⟩
    · exact heq.trans hq
    · rw [hq] at hnone
      cases hnone
  | begin _ _ => exact ⟨m', hm', rfl, rfl, id⟩
  | enter _ _ hp _ =>
    refine ⟨m', hm', rfl, rfl, fun hc => hc.move (fun target d hq => ?_) rfl⟩
    rw [hp] at hq
    cases hq
  | answered _ _ _ _ => exact ⟨m', hm', rfl, rfl, id⟩
  | complete _ _ _ he =>
    have hrows := (World.Step.mark ⟨_, .inr rfl⟩ he).silent_rows
    rw [hrows] at hm'
    exact ⟨m', hm', rfl, rfl, fun hc => hc.of_phases fun q target d hq _ _ => hq⟩
  | @leave p =>
    refine ⟨m', hm', rfl, rfl, fun hc => hc.of_phases fun q target d hq hid ho => ?_⟩
    have hne : q ≠ p := by
      rintro rfl
      refine hd ?_
      show s.world.drops q = _
      rw [World.drops_of_held hq hm' hid ho, h.row_artifact hq hm' hid.symm]
    exact (move_others .idle hne).trans hq
  | commit hs hl hstream => exact hs.covered h hl hstream hm' hd

/-! ## 4. The condition -/

/-- The artifact is not completed. -/
def World.Incomplete (w : World) (id : String) : Prop :=
  ∀ a ∈ w.db.artifacts, a.id = id → a.completedIndexLevel ≠ .full

/-- A loop completes its artifact undisturbed, no claim is let go or failed under a full level,
    and no declaration is claimed. -/
def tellsTruth : SessionCondition
  | s, .complete p => ∀ L, s.loop p = some L → L.disturbed = false
  | s, .commit (.claim p) => s.world.ClaimsDefined p
  | s, .commit (.fail p) => ∀ id, s.world.drops p = some id → s.world.Incomplete id
  | s, .leave p => ∀ id, s.world.drops p = some id → s.world.Incomplete id
  | _, _ => True

/-- **Only the end of a loop completes an artifact**, and a completed one is not disturbed. -/
theorem Session.Step.level {s s' : Session} {l : SessionLabel} (hs : Session.Step s l s')
    (hC : tellsTruth s l) (hno : ∀ p, l ≠ .complete p) {a' : Artifact}
    (ha' : a' ∈ s'.world.db.artifacts) (hfull : a'.completedIndexLevel = .full) :
    (∃ a ∈ s.world.db.artifacts, a.id = a'.id ∧ a.completedIndexLevel = .full) ∧
      s.world.disturbs l ≠ some a'.id := by
  have hnone : none ≠ some a'.id := fun h => by cases h
  cases hs with
  | silent _ _ hlevel => exact ⟨hlevel a' ha' hfull, hnone⟩
  | begin _ _ => exact ⟨⟨a', ha', rfl, hfull⟩, hnone⟩
  | enter _ _ _ _ => exact ⟨⟨a', ha', rfl, hfull⟩, hnone⟩
  | answered _ _ _ _ => exact ⟨⟨a', ha', rfl, hfull⟩, hnone⟩
  | @complete p _ _ _ _ _ _ _ => exact absurd rfl (hno p)
  | @leave p => exact ⟨⟨a', ha', rfl, hfull⟩, fun hd => hC a'.id hd a' ha' rfl hfull⟩
  | @commit l w' hs hl _ =>
    cases hs with
    | tick _ => exact absurd rfl hl
    | init _ _ => exact absurd rfl hl
    | store _ _ _ => exact absurd rfl hl
    | mark _ _ => exact absurd rfl hl
    | enter _ _ => exact absurd rfl hl
    | ingest _ _ => exact absurd rfl hl
    | leave => exact absurd rfl hl
    | @claim p io d target db' hp _ hcl =>
      obtain ⟨_, _, _, _, ht⟩ := claimFunction_ok hcl
      have ha' : a' ∈ db'.artifacts := ha'
      rw [show db'.artifacts = _ from congrArg Tables.artifacts ht] at ha'
      exact ⟨⟨a', ha', rfl, hfull⟩, hnone⟩
    | @publish p io d target draw records db' hp he =>
      have ha' : a' ∈ db'.artifacts := ha'
      rw [(Publish.exec_claims he).1] at ha'
      exact ⟨⟨a', ha', rfl, hfull⟩, hnone⟩
    | @fail p io d target message endedAt db' hp he =>
      have ha' : a' ∈ db'.artifacts := ha'
      rw [show db'.artifacts = _ from congrArg Tables.artifacts (failFunction_ok he)] at ha'
      exact ⟨⟨a', ha', rfl, hfull⟩, fun hd => hC a'.id hd a' ha' rfl hfull⟩
    | @claimCatalog p io d a index db' hp _ hcl =>
      obtain ⟨_, _, _, _, ht⟩ := claimCatalog_ok hcl
      have ha' : a' ∈ db'.artifacts := ha'
      rw [show db'.artifacts = _ from congrArg Tables.artifacts ht] at ha'
      refine ⟨?_, hnone⟩
      obtain ⟨a₁, ha₁, rfl⟩ := mem_updateWhere.mp ha'
      obtain ⟨a₂, ha₂, rfl⟩ := mem_updateWhere.mp ha₁
      refine ⟨a₂, ha₂, ?_, ?_⟩
      · (repeat' split) <;> rfl
      · revert hfull
        (repeat' split) <;> exact id
    | @publishCatalog p io d a module records endedAt db' hp he =>
      have ha' : a' ∈ db'.artifacts := ha'
      rw [(publishCatalog_claims he).1] at ha'
      obtain ⟨a₀, ha₀, rfl⟩ := mem_updateWhere.mp ha'
      by_cases hid : a₀.id = a.id
      · -- the catalog sets the level back
        rw [if_pos (by simpa using hid)] at hfull
        cases hfull
      · rw [if_neg (by simpa using hid)] at hfull ⊢
        refine ⟨⟨a₀, ha₀, rfl, hfull⟩, fun hd => hid ?_⟩
        have hd : (s.world.phase p).artifact.map (·.id) = some a₀.id := hd
        rw [hp] at hd
        exact (Option.some.inj hd).symm
    | @failCatalog p io d a message endedAt db' hp he =>
      have ha' : a' ∈ db'.artifacts := ha'
      rw [show db'.artifacts = _ from congrArg Tables.artifacts (failCatalog_ok he)] at ha'
      refine ⟨?_, hnone⟩
      obtain ⟨a₀, ha₀, rfl⟩ := mem_updateWhere.mp ha'
      refine ⟨a₀, ha₀, ?_, ?_⟩
      · split <;> rfl
      · revert hfull
        split <;> exact id

/-! ## 5. Loops under way -/

/-- What a transaction does to the loop of a process. -/
theorem Session.advance_some {s : Session} {l : Label} {q : Nat} {L' : FullIndex}
    (h : s.advance l q = some L') : ∃ L, s.loop q = some L ∧ L'.artifact = L.artifact ∧
      (L'.disturbed = false → L.disturbed = false ∧
        s.world.disturbs (.commit l) ≠ some L.artifact) ∧
      (L'.todo = L.todo ∨ (∃ records, l = .publish q records) ∧ L'.todo = L.todo.tail) := by
  -- the ghost column of a loop that stays
  have hafter : ∀ {d : Option String} {L : FullIndex}, (L.after d).disturbed = false →
      L.disturbed = false ∧ d ≠ some L.artifact := by
    intro d L hd
    simpa [FullIndex.after] using hd
  have hmap : ∀ {L₁ : FullIndex},
      (s.loop q).map (FullIndex.after (s.world.disturbs (.commit l))) = some L₁ →
      ∃ L, s.loop q = some L ∧ L₁ = L.after (s.world.disturbs (.commit l)) := by
    intro L₁ hL₁
    obtain ⟨L, hL, rfl⟩ := Option.map_eq_some_iff.mp hL₁
    exact ⟨L, hL, rfl⟩
  unfold advance at h
  dsimp only at h
  split at h
  · rename_i p records
    split at h
    · rename_i hqp
      obtain ⟨L₁, hL₁, rfl⟩ := Option.map_eq_some_iff.mp h
      obtain ⟨L, hL, rfl⟩ := hmap hL₁
      exact ⟨L, hL, rfl, fun hd => hafter hd, .inr ⟨⟨records, by rw [hqp]⟩, rfl⟩⟩
    · obtain ⟨L, hL, rfl⟩ := hmap h
      exact ⟨L, hL, rfl, fun hd => hafter hd, .inl rfl⟩
  · split at h
    · cases h
    · obtain ⟨L, hL, rfl⟩ := hmap h
      exact ⟨L, hL, rfl, fun hd => hafter hd, .inl rfl⟩
  · obtain ⟨L, hL, rfl⟩ := hmap h
    exact ⟨L, hL, rfl, fun hd => hafter hd, .inl rfl⟩

/-- The phases a transaction leads to. -/
theorem World.Step.commit_phase {w w' : World} {l : Label} (hs : World.Step w l w')
    (hl : l ≠ .silent) (q : Nat) :
    (w'.phase q = w.phase q ∧ ∀ records, l ≠ .publish q records) ∨
      (∀ target, w'.phase q ≠ .entered target) ∧ ∀ target d, w'.phase q = .analysing target d →
        l = .claim q ∧ w.phase q = .entered target := by
  -- a process that moves to a phase without a function
  have hmove : ∀ {p : Nat} {phase : Phase}, w'.phase = Function.update w.phase p phase →
      (∀ target, phase ≠ .entered target) → (∀ target d, phase ≠ .analysing target d) →
      (∀ records, q ≠ p → l ≠ .publish q records) →
      (w'.phase q = w.phase q ∧ ∀ records, l ≠ .publish q records) ∨
        (∀ target, w'.phase q ≠ .entered target) ∧ ∀ target d, w'.phase q = .analysing target d →
          l = .claim q ∧ w.phase q = .entered target := by
    intro p phase hphase hent hana hpub
    by_cases hqp : q = p
    · refine .inr ⟨fun target hq => ?_, fun target d hq => ?_⟩
      · rw [hphase, hqp, Function.update_self] at hq
        exact absurd hq (hent target)
      · rw [hphase, hqp, Function.update_self] at hq
        exact absurd hq (hana target d)
    · refine .inl ⟨?_, fun records => hpub records hqp⟩
      rw [hphase, Function.update_of_ne hqp]
  cases hs with
  | tick _ => exact absurd rfl hl
  | init _ _ => exact absurd rfl hl
  | store _ _ _ => exact absurd rfl hl
  | mark _ _ => exact absurd rfl hl
  | enter _ _ => exact absurd rfl hl
  | ingest _ _ => exact absurd rfl hl
  | leave => exact absurd rfl hl
  | @claim p io d target db' hp _ _ =>
    by_cases hqp : q = p
    · refine .inr ⟨fun target' hq => ?_, fun target' d' hq => ?_⟩
      · have hq : Function.update w.phase p (.analysing target d) q = .entered target' := hq
        rw [hqp, Function.update_self] at hq
        cases hq
      · have hq : Function.update w.phase p (.analysing target d) q = .analysing target' d' := hq
        rw [hqp, Function.update_self] at hq
        cases hq
        exact ⟨by rw [hqp], by rw [hqp]; exact hp⟩
    · exact .inl ⟨move_others _ hqp, fun _ => Label.noConfusion⟩
  | @publish p _ _ _ _ _ _ _ _ =>
    refine hmove (p := p) rfl (fun _ => Phase.noConfusion) (fun _ _ => Phase.noConfusion) ?_
    rintro records hqp he
    cases he
    exact hqp rfl
  | @fail p _ _ _ _ _ _ _ _ =>
    exact hmove (p := p) rfl (fun _ => Phase.noConfusion) (fun _ _ => Phase.noConfusion)
      fun _ _ => Label.noConfusion
  | @claimCatalog p _ _ _ _ _ _ _ _ =>
    exact hmove (p := p) rfl (fun _ => Phase.noConfusion) (fun _ _ => Phase.noConfusion)
      fun _ _ => Label.noConfusion
  | @publishCatalog p _ _ _ _ _ _ _ _ _ =>
    exact hmove (p := p) rfl (fun _ => Phase.noConfusion) (fun _ _ => Phase.noConfusion)
      fun _ _ => Label.noConfusion
  | @failCatalog p _ _ _ _ _ _ _ _ =>
    exact hmove (p := p) rfl (fun _ => Phase.noConfusion) (fun _ _ => Phase.noConfusion)
      fun _ _ => Label.noConfusion

/-! ## 6. The invariant -/

/-- Rows of a completed artifact are covered; rows of an artifact that is indexed undisturbed
    are covered or still to be done; the function at work is the first to be done. -/
structure Truthful (s : Session) : Prop where
  registered : Registered s.world
  levels : ∀ a ∈ s.world.db.artifacts, a.completedIndexLevel = .full →
    ∀ m ∈ s.world.db.materializations, m.artifactId = a.id → s.world.Covered m
  loops : ∀ p L, s.loop p = some L → L.disturbed = false →
    ∀ m ∈ s.world.db.materializations, m.artifactId = L.artifact →
      m.functionId ∈ L.todo ∨ s.world.Covered m
  entered : ∀ p L target, s.loop p = some L → s.world.phase p = .entered target →
    L.todo.head? = some target.handle
  analysing : ∀ p L target d, s.loop p = some L → s.world.phase p = .analysing target d →
    L.todo.head? = some target.handle ∧ (L.disturbed = false →
      ∀ m ∈ s.world.db.materializations, m.artifactId = L.artifact →
        m.functionId = target.handle → s.world.Covered m)

section Truthful

variable {s s' : Session} {l : SessionLabel}

/-- The rows of an artifact that a step does not disturb, as a loop needs them. -/
theorem Truthful.loop_rows (h : Truthful s) (hs : Session.Step s l s') {q : Nat} {L : FullIndex}
    (hL : s.loop q = some L) (hd : L.disturbed = false)
    (hn : s.world.disturbs l ≠ some L.artifact) {m' : Materialization}
    (hm' : m' ∈ s'.world.db.materializations) (ha : m'.artifactId = L.artifact) :
    m'.functionId ∈ L.todo ∨ s'.world.Covered m' := by
  obtain ⟨m, hm, hid, hart, hcov⟩ := hs.covered h.registered hm' (by rw [ha]; exact hn)
  rcases h.loops q L hL hd m hm (hart.trans ha) with hin | hc
  · rw [hid] at hin
    exact .inl hin
  · exact .inr (hcov hc)

/-- The row of the function at work. -/
theorem Truthful.work_rows (h : Truthful s) (hs : Session.Step s l s') {q : Nat} {L : FullIndex}
    {target : Target} {d : ClaimDraw} (hL : s.loop q = some L)
    (hq : s.world.phase q = .analysing target d) (hd : L.disturbed = false)
    (hn : s.world.disturbs l ≠ some L.artifact) {m' : Materialization}
    (hm' : m' ∈ s'.world.db.materializations) (ha : m'.artifactId = L.artifact)
    (hid' : m'.functionId = target.handle) : s'.world.Covered m' := by
  obtain ⟨m, hm, hid, hart, hcov⟩ := hs.covered h.registered hm' (by rw [ha]; exact hn)
  exact hcov ((h.analysing q L target d hL hq).2 hd m hm (hart.trans ha) (hid.trans hid'))

/-- The levels after a step that completes nothing. -/
theorem Truthful.levels_step (h : Truthful s) (hs : Session.Step s l s') (hC : tellsTruth s l)
    (hno : ∀ p, l ≠ .complete p) : ∀ a ∈ s'.world.db.artifacts, a.completedIndexLevel = .full →
      ∀ m ∈ s'.world.db.materializations, m.artifactId = a.id → s'.world.Covered m := by
  intro a' ha' hfull m' hm' hart'
  obtain ⟨⟨a, ha, hid, hlevel⟩, hn⟩ := hs.level hC hno ha' hfull
  obtain ⟨m, hm, _, hart, hcov⟩ := hs.covered h.registered hm' (by rw [hart']; exact hn)
  exact hcov (h.levels a ha hlevel m hm (hart.trans (hart'.trans hid.symm)))

/-- Rows of the artifact are in the list of its functions, or declarations'. -/
theorem Registered.listed {w : World} (h : Registered w) {m : Materialization}
    (hm : m ∈ w.db.materializations) :
    m.functionId ∈ w.db.definedFunctions m.artifactId ∨ w.Covered m := by
  by_cases hst : m.status = .declarationOnly
  · exact .inr (.inl hst)
  · left
    obtain ⟨e, he, hid⟩ := List.mem_map.mp (w.db.constraints.materializationRefs m hm).2.1
    obtain ⟨a, ha, haid, key, hkey⟩ := h.grounded.rooted.materializations m hm
    obtain ⟨hart, hlocal⟩ := h.filed.of_handle ⟨a, ha, rfl, rfl⟩ he (colon_mem_functionLocal key)
      (hid.trans hkey)
    obtain ⟨_, _, hfiled⟩ := h.filed.entities e he
    refine List.mem_map.mpr ⟨e, List.mem_filter.mpr ⟨he, ?_⟩, hid⟩
    simp [hart, haid, (hfiled.function key hlocal).1, h.undeclared m hm e he hid hst]

/-- What `materialize` answers at once is covered. -/
theorem covered_of_answered {w : World} (hkey : Keyed Materialization.functionId w.db.materializations)
    {handle : String} {response : Materialized}
    (hent : Irez.enter w.db.toTables handle false = .ok (.answered response)) {m : Materialization}
    (hm : m ∈ w.db.materializations) (hid : m.functionId = handle) : w.Covered m := by
  have hrow : w.db.materialization handle = some m := by
    rw [← hid]
    exact lookup_self hkey hm
  unfold Irez.enter at hent
  split at hent
  · cases hent
  · split at hent
    · cases hent
    · dsimp only at hent
      rw [hrow] at hent
      by_cases hcached : cacheCurrent w.db.toTables m = true
      · unfold cacheCurrent at hcached
        simp only [Bool.and_eq_true, decide_eq_true_eq] at hcached
        exact .inr (.inl hcached.1.1.1.1)
      · by_cases hdecl : m.status = .declarationOnly
        · exact .inl hdecl
        · simp [hcached, hdecl] at hent

/-- The row that a claim takes is covered by it. -/
theorem covered_of_claim {w w' : World} {p : Nat} {io : Faults} {d : ClaimDraw} {target : Target}
    {db' : Database} (hkey : Keyed Materialization.functionId w.db.materializations)
    (hcl : claimFunction io d target w.db = .ok db') (hphase : w'.phase p = .analysing target d)
    {m' : Materialization} (hm' : m' ∈ db'.materializations) (hid : m'.functionId = target.handle) :
    w'.Covered m' := by
  obtain ⟨_, _, hone, _, ht⟩ := claimFunction_ok hcl
  rw [show db'.materializations = _ from congrArg Tables.materializations ht] at hm'
  obtain ⟨m, hm, rfl⟩ := mem_updateWhere.mp hm'
  have hid₀ : m.functionId = target.handle := by
    rw [← hid]
    split <;> rfl
  have hclaimable : m.claimable d.now = true := by
    rw [← hid₀] at hone
    unfold Tables.claimableFunctions at hone
    simp only [Bool.and_comm (decide _), ← List.filter_filter] at hone
    rw [hkey.filter_eq hm, List.filter_singleton] at hone
    cases hc : m.claimable d.now with
    | true => rfl
    | false =>
      rw [hc] at hone
      cases hone
  rw [if_pos (by simp [hid₀, hclaimable])]
  exact .inr (.inr ⟨p, target, d, hphase, hid₀.symm, rfl⟩)

/-- **Loops that go on as they were**, of processes that stay where they are. -/
theorem Truthful.of_loops (h : Truthful s) (hs : Session.Step s l s') (hreg : Registered s'.world)
    (hlevels : ∀ a ∈ s'.world.db.artifacts, a.completedIndexLevel = .full →
      ∀ m ∈ s'.world.db.materializations, m.artifactId = a.id → s'.world.Covered m)
    (hloop : ∀ q L', s'.loop q = some L' → s'.world.phase q = s.world.phase q ∧
      ∃ L, s.loop q = some L ∧ L'.artifact = L.artifact ∧ L'.todo = L.todo ∧
        (L'.disturbed = false → L.disturbed = false ∧ s.world.disturbs l ≠ some L.artifact)) :
    Truthful s' where
  registered := hreg
  levels := hlevels
  loops q L' hL' hd m' hm' ha := by
    obtain ⟨_, L, hL, hart, htodo, hghost⟩ := hloop q L' hL'
    rw [hart] at ha
    rw [htodo]
    exact h.loop_rows hs hL (hghost hd).1 (hghost hd).2 hm' ha
  entered q L' target hL' hq := by
    obtain ⟨hphase, L, hL, _, htodo, _⟩ := hloop q L' hL'
    rw [htodo]
    exact h.entered q L target hL (hphase.symm.trans hq)
  analysing q L' target d hL' hq := by
    obtain ⟨hphase, L, hL, hart, htodo, hghost⟩ := hloop q L' hL'
    have hq : s.world.phase q = .analysing target d := hphase.symm.trans hq
    rw [htodo, hart]
    refine ⟨(h.analysing q L target d hL hq).1, fun hd m' hm' ha hid => ?_⟩
    exact h.work_rows hs hL hq (hghost hd).1 (hghost hd).2 hm' ha hid

/-- **A process at no function takes up a list** that leaves out covered rows only. -/
theorem Truthful.setLoop (h : Truthful s) {p : Nat} {L : FullIndex} (hp : s.world.phase p = .idle)
    (hrows : L.disturbed = false → ∀ m ∈ s.world.db.materializations, m.artifactId = L.artifact →
      m.functionId ∈ L.todo ∨ s.world.Covered m) : Truthful (s.setLoop p (some L)) := by
  have hloop : ∀ {q : Nat} {L' : FullIndex}, (s.setLoop p (some L)).loop q = some L' →
      q = p ∧ L' = L ∨ q ≠ p ∧ s.loop q = some L' := by
    intro q L' hL'
    have hL' : Function.update s.loop p (some L) q = some L' := hL'
    by_cases hqp : q = p
    · rw [hqp, Function.update_self] at hL'
      exact .inl ⟨hqp, (Option.some.inj hL').symm⟩
    · rw [Function.update_of_ne hqp] at hL'
      exact .inr ⟨hqp, hL'⟩
  refine ⟨h.registered, h.levels, fun q L' hL' => ?_, fun q L' target hL' hq => ?_,
    fun q L' target d hL' hq => ?_⟩
  · rcases hloop hL' with ⟨rfl, rfl⟩ | ⟨_, hL'⟩
    · exact hrows
    · exact h.loops q L' hL'
  · rcases hloop hL' with ⟨rfl, rfl⟩ | ⟨_, hL'⟩
    · rw [Session.setLoop_world, hp] at hq
      cases hq
    · exact h.entered q L' target hL' hq
  · rcases hloop hL' with ⟨rfl, rfl⟩ | ⟨_, hL'⟩
    · rw [Session.setLoop_world, hp] at hq
      cases hq
    · exact h.analysing q L' target d hL' hq

/-- **A transaction of any process.** -/
theorem Truthful.commit {l : Label} {w' : World} (h : Truthful s) (hs : World.Step s.world l w')
    (hl : l ≠ .silent) (hstream : ∀ p records, l = .publish p records → FromAdapter records)
    (hC : tellsTruth s (.commit l)) : Truthful { world := w', loop := s.advance l } := by
  have hcall : Session.Step s (.commit l) { world := w', loop := s.advance l } :=
    .commit hs hl hstream
  have hkey : Keyed Materialization.functionId s.world.db.materializations :=
    h.registered.grounded.rooted.keyed s.world.db.constraints
  refine ⟨?_, h.levels_step hcall hC fun _ => SessionLabel.noConfusion, ?_, ?_, ?_⟩
  · refine h.registered.step hs hstream fun p hp => ?_
    rw [hp] at hC
    exact hC
  · intro q L' hL' hd m' hm' ha
    obtain ⟨L, hL, hart, hghost, htodo⟩ := Session.advance_some hL'
    obtain ⟨hd₀, hn⟩ := hghost hd
    rcases h.loop_rows hcall hL hd₀ hn hm' (ha.trans hart) with hin | hc
    · rcases htodo with htodo | ⟨⟨records, rfl⟩, htodo⟩
      · rw [htodo]
        exact .inl hin
      · -- the process publishes its first function
        cases hs with
        | @publish _ _ d target _ _ _ hp _ =>
          obtain ⟨hhead, _⟩ := h.analysing q L target d hL hp
          cases hlist : L.todo with
          | nil =>
            rw [hlist] at hin
            cases hin
          | cons first rest =>
            rw [hlist] at hin hhead htodo
            obtain rfl := Option.some.inj hhead
            rcases List.mem_cons.mp hin with hid | hin
            · exact .inr (h.work_rows hcall hL hp hd₀ hn hm' (ha.trans hart) hid)
            · rw [htodo]
              exact .inl hin
    · exact .inr hc
  · intro q L' target hL' hq
    obtain ⟨L, hL, _, _, htodo⟩ := Session.advance_some hL'
    rcases hs.commit_phase hl q with ⟨hsame, hno⟩ | ⟨hno, _⟩
    · rcases htodo with htodo | ⟨⟨records, hpub⟩, _⟩
      · rw [htodo]
        exact h.entered q L target hL (hsame.symm.trans hq)
      · exact absurd hpub (hno records)
    · exact absurd hq (hno target)
  · intro q L' target d hL' hq
    obtain ⟨L, hL, hart, hghost, htodo⟩ := Session.advance_some hL'
    rcases hs.commit_phase hl q with ⟨hsame, hno⟩ | ⟨_, hclaim⟩
    · have hq : s.world.phase q = .analysing target d := hsame.symm.trans hq
      rcases htodo with htodo | ⟨⟨records, hpub⟩, _⟩
      · rw [htodo, hart]
        refine ⟨(h.analysing q L target d hL hq).1, fun hd m' hm' ha hid => ?_⟩
        obtain ⟨hd₀, hn⟩ := hghost hd
        exact h.work_rows hcall hL hq hd₀ hn hm' ha hid
      · exact absurd hpub (hno records)
    · -- the claim of this function
      obtain ⟨rfl, hent⟩ := hclaim target d hq
      rcases htodo with htodo | ⟨⟨records, hpub⟩, _⟩
      · rw [htodo, hart]
        refine ⟨h.entered q L target hL hent, fun _ m' hm' ha hid => ?_⟩
        cases hs with
        | claim hp _ hcl =>
          rw [hent] at hp
          cases hp
          exact covered_of_claim hkey hcl (move_phase (w := s.world) _) hm' hid
      · cases hpub

/-- **One step keeps the invariant.** -/
theorem Truthful.step (h : Truthful s) (hs : Session.Step s l s') (hC : tellsTruth s l) :
    Truthful s' := by
  have hcall : Session.Step s l s' := hs
  have hkey : Keyed Materialization.functionId s.world.db.materializations :=
    h.registered.grounded.rooted.keyed s.world.db.constraints
  cases hs with
  | @silent w' hs hphase hlevel =>
    refine h.of_loops hcall (h.registered.step hs (fun _ _ => Label.noConfusion)
      fun _ => Label.noConfusion) (h.levels_step hcall hC fun _ => SessionLabel.noConfusion) ?_
    intro q L hL
    have hL : s.loop q = some L := hL
    refine ⟨?_, L, hL, rfl, rfl, fun hd => ⟨hd, fun h => by cases h⟩⟩
    rcases hphase q with heq | ⟨hnone, _⟩
    · exact heq
    · rw [hL] at hnone
      cases hnone
  | @begin p a hp ha =>
    refine h.setLoop hp fun _ m hm hart => ?_
    have hlisted := h.registered.listed hm
    rw [hart] at hlisted
    exact hlisted
  | @enter p L handle rest target hl htodo hp hent =>
    have hn : ∀ id : String, s.world.disturbs .silent ≠ some id := fun _ h => by cases h
    refine ⟨?_, h.levels_step hcall hC fun _ => SessionLabel.noConfusion, ?_, ?_, ?_⟩
    · exact h.registered.step (.enter hp hent) (fun _ _ => Label.noConfusion)
        fun _ => Label.noConfusion
    · intro q L hL hd m' hm' ha
      exact h.loop_rows hcall hL hd (hn _) hm' ha
    · intro q L' target' hL' hq
      have hq : Function.update s.world.phase p (.entered target) q = .entered target' := hq
      by_cases hqp : q = p
      · rw [hqp, Function.update_self] at hq
        cases hq
        have hL' : s.loop q = some L' := hL'
        rw [hqp, hl] at hL'
        obtain rfl := Option.some.inj hL'
        rw [htodo, (enter_analyse hent).2.1]
        rfl
      · rw [Function.update_of_ne hqp] at hq
        exact h.entered q L' target' hL' hq
    · intro q L' target' d hL' hq
      have hq : Function.update s.world.phase p (.entered target) q = .analysing target' d := hq
      by_cases hqp : q = p
      · rw [hqp, Function.update_self] at hq
        cases hq
      · rw [Function.update_of_ne hqp] at hq
        refine ⟨(h.analysing q L' target' d hL' hq).1, fun hd m' hm' ha hid => ?_⟩
        exact h.work_rows hcall hL' hq hd (hn _) hm' ha hid
  | @answered p L handle rest response hl htodo hp hent =>
    refine h.setLoop hp fun hd m hm hart => ?_
    rcases h.loops p L hl hd m hm hart with hin | hc
    · rw [htodo] at hin
      rcases List.mem_cons.mp hin with hid | hin
      · exact .inr (covered_of_answered hkey hent hm hid)
      · exact .inl hin
    · exact .inr hc
  | commit hs hl hstream => exact h.commit hs hl hstream hC
  | @complete p L io db' hl htodo hp he =>
    have hn : ∀ id : String, s.world.disturbs (.complete p) ≠ some id := fun _ h => by cases h
    refine h.of_loops hcall (h.registered.step (.mark ⟨_, .inr rfl⟩ he)
      (fun _ _ => Label.noConfusion) fun _ => Label.noConfusion) ?_ ?_
    · intro a' ha' hfull m' hm' hart'
      obtain ⟨m, hm, hid, hart, hcov⟩ := hcall.covered h.registered hm' (hn _)
      refine hcov ?_
      have ha' : a' ∈ db'.artifacts := ha'
      rw [exec_ok he] at ha'
      obtain ⟨a, ha, rfl⟩ := mem_updateWhere.mp ha'
      by_cases haid : a.id = L.artifact
      · -- the loop has nothing left to do
        rw [if_pos (by simpa using haid)] at hart'
        rcases h.loops p L hl (hC L hl) m hm (hart.trans (hart'.trans haid)) with hin | hc
        · rw [htodo] at hin
          cases hin
        · exact hc
      · rw [if_neg (by simpa using haid)] at hfull hart'
        exact h.levels a ha hfull m hm (hart.trans hart')
    · intro q L' hL'
      have hL' : Function.update s.loop p none q = some L' := hL'
      refine ⟨rfl, L', ?_, rfl, rfl, fun hd => ⟨hd, hn _⟩⟩
      by_cases hqp : q = p
      · rw [hqp, Function.update_self] at hL'
        cases hL'
      · rwa [Function.update_of_ne hqp] at hL'
  | @leave p =>
    refine h.of_loops hcall (h.registered.step .leave (fun _ _ => Label.noConfusion)
      fun _ => Label.noConfusion) (h.levels_step hcall hC fun _ => SessionLabel.noConfusion) ?_
    intro q L' hL'
    have hL' : Function.update
        (fun q => (s.loop q).map (FullIndex.after (s.world.disturbs (.leave p)))) p none q =
        some L' := hL'
    by_cases hqp : q = p
    · rw [hqp, Function.update_self] at hL'
      cases hL'
    · rw [Function.update_of_ne hqp] at hL'
      obtain ⟨L, hL, rfl⟩ := Option.map_eq_some_iff.mp hL'
      refine ⟨move_others .idle hqp, L, hL, rfl, rfl, fun hd => ?_⟩
      simpa [FullIndex.after] using hd

end Truthful

/-! ## 7. Runs -/

theorem SessionRuns.truthful {s : Session} (h : SessionRuns tellsTruth s) : Truthful s := by
  refine h.invariant (fun s₀ h₀ hloop => ?_) fun hI hs hC => hI.step hs hC
  have hidle : ∀ p target, s₀.world.phase p ≠ .entered target := by
    intro p target hp
    rw [h₀.idle p] at hp
    cases hp
  have hquiet : ∀ p target d, s₀.world.phase p ≠ .analysing target d := by
    intro p target d hp
    rw [h₀.idle p] at hp
    cases hp
  have hno : ∀ p L, s₀.loop p ≠ some L := by
    intro p L hL
    rw [hloop p] at hL
    cases hL
  have hrows : ∀ m, m ∉ s₀.world.db.materializations := by
    intro m hm
    rw [h₀.materializations] at hm
    cases hm
  refine ⟨⟨h₀.grounded, ⟨fun m hm => absurd hm (hrows m), fun a ha => ?_⟩, ⟨fun a ha => ?_,
    fun e he => ?_⟩, fun m hm => absurd hm (hrows m), fun p target hp => absurd hp (hidle p target),
    fun p target d hp => absurd hp (hquiet p target d)⟩, fun _ _ _ m hm => absurd hm (hrows m),
    fun p L hL => absurd hL (hno p L), fun p L _ hL => absurd hL (hno p L),
    fun p L _ _ hL => absurd hL (hno p L)⟩
  · rw [h₀.artifacts] at ha
    cases ha
  · rw [h₀.artifacts] at ha
    cases ha
  · rw [h₀.entities] at he
    cases he

/-- The catalogs of a session are those of the modules the stored files hold. -/
def catalogsFrom (modules : String → Module) : SessionCondition
  | s, .commit l => catalogsOf modules s.world l
  | _, _ => True

/-- **Every defined function of a catalogued artifact has its row.** -/
theorem SessionRuns.rostered {C : SessionCondition} {modules : String → Module}
    (hC : ∀ s l, C s l → catalogsFrom modules s l) {s : Session} (h : SessionRuns C s) :
    Rostered modules s.world.db.toTables := by
  have hboth : Grounded s.world ∧ Rostered modules s.world.db.toTables := by
    refine h.invariant (I := fun s => Grounded s.world ∧ Rostered modules s.world.db.toTables)
      (fun s₀ h₀ _ => ⟨h₀.grounded, h₀.rostered⟩) fun hI hs hc => ?_
    obtain ⟨hg, hr⟩ := hI
    cases hs with
    | silent hs _ _ => exact ⟨hg.step hs, hr.step hg hs trivial⟩
    | begin _ _ => exact ⟨hg, hr⟩
    | answered _ _ _ _ => exact ⟨hg, hr⟩
    | enter _ _ hp hent => exact ⟨hg.step (.enter hp hent), hr.step hg (.enter hp hent) trivial⟩
    | commit hs _ _ => exact ⟨hg.step hs, hr.step hg hs (hC _ _ hc)⟩
    | complete _ _ _ he =>
      have hmark := World.Step.mark ⟨_, .inr rfl⟩ he
      exact ⟨hg.step hmark, hr.step hg hmark trivial⟩
    | leave => exact ⟨hg.step .leave, hr.step hg .leave trivial⟩
  exact hboth.2

/-- **A full level tells the truth on every run that meets the condition**: where no process
    analyses a function of the artifact, every row of it is ready or a declaration's, and where
    catalogs are read from the stored file every defined function has such a row. -/
theorem full_level_tells_the_truth {s : Session} (h : SessionRuns tellsTruth s) :
    ∀ a ∈ s.world.db.artifacts, a.completedIndexLevel = .full →
      (∀ q target d, s.world.phase q = .analysing target d → target.artifact.id ≠ a.id) →
      (∀ m ∈ s.world.db.materializations, m.artifactId = a.id → m.status ≠ .declarationOnly →
        m.status = .structureReady) ∧
      ∀ modules, SessionRuns (fun s l => tellsTruth s l ∧ catalogsFrom modules s l) s →
        s.world.db.Listed a → ∀ (K : Nat) (F : Function), (modules a.id).functions[K]? = some F →
        F.isDeclaration = false → ∃ m ∈ s.world.db.materializations, m.artifactId = a.id ∧
          m.functionId = entityId a (functionLocal (functionKey K)) ∧
            m.status = .structureReady := by
  intro a ha hfull hquiet
  have htruth := h.truthful
  have hrows : ∀ m ∈ s.world.db.materializations, m.artifactId = a.id →
      m.status ≠ .declarationOnly → m.status = .structureReady := by
    intro m hm hart hdefined
    rcases htruth.levels a ha hfull m hm hart with hst | hst | ⟨q, target, d, hq, hid, _⟩
    · exact absurd hst hdefined
    · exact hst
    · exact absurd ((htruth.registered.row_artifact hq hm hid.symm).symm.trans hart)
        (hquiet q target d hq)
  refine ⟨hrows, fun modules hruns hlisted K F hF hd => ?_⟩
  obtain ⟨m, hm, hart, hhandle, hst⟩ := hruns.rostered (fun _ _ hc => hc.2) a ha hlisted K F hF hd
  exact ⟨m, hm, hart, hhandle, hrows m hm hart hst⟩

/-! ## 8. A full index of one function -/

namespace Scenario

/-- The process `1` has read the list of functions, and then `f0`. -/
def listed : Session :=
  (⟨catalogued, fun _ => none⟩ : Session).setLoop 1
    (some ⟨Sample.artifact.id, catalogued.db.definedFunctions Sample.artifact.id, false⟩)

def reading : Session := { listed with world := catalogued.move 1 (.entered (target catalogued.db)) }

def claiming : Session := { world := claimed, loop := reading.advance (.claim 1) }

/-- The loop has nothing left to do. -/
def exhausted : Session := { world := ready, loop := claiming.advance (.publish 1 stream) }

def complete (s : Session) (p : Nat) : Session :=
  { world := { s.world with
      db := after (exec noFaults (.completeFull Sample.artifact.id) s.world.db) }
    loop := Function.update s.loop p none }

/-- The full index of the process `1` is complete. -/
def full : Session := complete exhausted 1

/-- The process `2` refreshes the catalog before the loop ends. -/
def refreshingIndexed : Session :=
  { world := refreshing ready 2 (Sample.claimDraw "e" "e" 1)
    loop := (⟨ready.move 2 (.ingesting (target ready.db).artifact), exhausted.loop⟩ : Session).advance
      (.claimCatalog 2) }

def reset : Session :=
  { world := refreshed refreshingIndexed.world 2 (Sample.claimDraw "e" "e" 1)
    loop := refreshingIndexed.advance (.publishCatalog 2 records) }

/-- The level `full` is written over the level of the new catalog. -/
def overwritten : Session := complete reset 1

/-- The process `2` analyses `f0` again after the full index, and fails. -/
def reanalysing : Session :=
  { world := analysing full.world 2 (Sample.claimDraw "b" "b" 1)
    loop := (⟨full.world.move 2 (.entered (target full.world.db)), full.loop⟩ : Session).advance
      (.claim 2) }

def lost : Session :=
  { world := { reanalysing.world.move 2 .idle with
      db := after (failFunction noFaults (target full.world.db) "run:b" "b" "bad_alloc" 2
        reanalysing.world.db) }
    loop := reanalysing.advance (.fail 2) }

/-- A step that no condition is put on. -/
def anySession : SessionCondition := fun _ _ => True

section Runs

variable {C : SessionCondition}

theorem SessionRuns.tail {s s' : Session} {l : SessionLabel} (h : SessionRuns C s)
    (hs : Session.Step s l s') (hC : C s l) : SessionRuns C s' := by
  obtain ⟨s₀, hinit, hloop, hrun⟩ := h
  exact ⟨s₀, hinit, hloop, hrun.tail ⟨l, hs, hC⟩⟩

theorem exhausted_runs (hsilent : ∀ s, C s .silent)
    (hcommit : ∀ s l, (∀ p, l ≠ .fail p) → (∀ p, l = .claim p → s.world.ClaimsDefined p) →
      (∀ p r, l = .publishCatalog p r → r = records) → C s (.commit l)) : SessionRuns C exhausted := by
  have h₀ : SessionRuns C ⟨initial, fun _ => none⟩ := ⟨_, initial_initial, fun _ => rfl, .refl⟩
  have hstore : World.Step initial .silent stored :=
    @World.Step.store initial noFaults Sample.artifact Sample.database ⟨by decide, by decide⟩
      ⟨rfl, rfl, rfl, rfl⟩ rfl
  have hlevel : ∀ a' ∈ stored.db.artifacts, a'.completedIndexLevel = .full →
      ∃ a ∈ initial.db.artifacts, a.id = a'.id ∧ a.completedIndexLevel = .full := by decide
  have h₁ : SessionRuns C ⟨stored, fun _ => none⟩ :=
    SessionRuns.tail h₀ (.silent hstore (fun _ => .inl rfl) hlevel) (hsilent _)
  have hingest : World.Step stored .silent ingesting := .ingest rfl (List.mem_singleton.mpr rfl)
  have h₂ : SessionRuns C ⟨ingesting, fun _ => none⟩ := by
    refine SessionRuns.tail h₁ (.silent hingest (fun q => ?_) fun a' ha' hf => ⟨a', ha', rfl, hf⟩)
      (hsilent _)
    exact .inr ⟨rfl, rfl⟩
  have hcat : World.Step ingesting (.claimCatalog 0) cataloging :=
    @World.Step.claimCatalog ingesting 0 noFaults catalogDraw Sample.artifact .catalog _ rfl
      ⟨List.not_mem_nil, Nat.le_refl 1, rfl⟩ rfl
  have h₃ : SessionRuns C ⟨cataloging, fun _ => none⟩ :=
    SessionRuns.tail h₂ (.commit hcat Label.noConfusion fun _ _ => Label.noConfusion)
      (hcommit _ (.claimCatalog 0) (fun _ => Label.noConfusion) (fun _ hp => by cases hp)
        fun _ _ hp => by cases hp)
  have hpub : World.Step cataloging (.publishCatalog 0 records) catalogued :=
    @World.Step.publishCatalog cataloging 0 noFaults catalogDraw Sample.artifact moduleRecord
      records 2 _ rfl rfl
  have h₄ : SessionRuns C ⟨catalogued, fun _ => none⟩ :=
    SessionRuns.tail h₃ (.commit hpub Label.noConfusion fun _ _ => Label.noConfusion)
      (hcommit _ (.publishCatalog 0 records) (fun _ => Label.noConfusion) (fun _ hp => by cases hp)
        fun _ _ hp => by cases hp; rfl)
  have h₅ : SessionRuns C listed := by
    obtain ⟨a, ha, hid⟩ : ∃ a ∈ catalogued.db.artifacts, a.id = Sample.artifact.id :=
      ⟨_, List.mem_singleton.mpr rfl, rfl⟩
    have hbegin := @Session.Step.begin ⟨catalogued, fun _ => none⟩ 1 a rfl ha
    rw [hid] at hbegin
    exact SessionRuns.tail h₄ hbegin (hsilent _)
  have h₆ : SessionRuns C reading :=
    SessionRuns.tail h₅ (@Session.Step.enter listed 1 _ handle [] (target catalogued.db) rfl rfl rfl
      rfl) (hsilent _)
  have hclaimed : claimFunction noFaults (Sample.claimDraw "a" "a" 1) (target catalogued.db)
      catalogued.db = .ok claimed.db := rfl
  have hclaim : World.Step reading.world (.claim 1) claimed :=
    .claim (move_phase _) ⟨by decide, Nat.le_refl 1, rfl⟩ hclaimed
  have h₇ : SessionRuns C claiming := by
    refine SessionRuns.tail h₆ (.commit hclaim Label.noConfusion fun _ _ => Label.noConfusion)
      (hcommit _ (.claim 1) (fun _ => Label.noConfusion) (fun p hp => ?_) fun _ _ hp => by cases hp)
    have hrows : ∀ m ∈ catalogued.db.materializations, m.status ≠ .declarationOnly := by decide
    exact fun _ _ m hm _ => hrows m hm
  have hpublished : (Publish.of (target catalogued.db) (Sample.claimDraw "a" "a" 1).runId
      (Sample.claimDraw "a" "a" 1).owner ⟨fun _ => 2, 2⟩ stream).exec noFaults claimed.db =
      .ok ready.db := rfl
  have hready : World.Step claimed (.publish 1 stream) ready := .publish rfl hpublished
  refine SessionRuns.tail h₇ (.commit hready Label.noConfusion fun p r hr => ?_)
    (hcommit _ (.publish 1 stream) (fun _ => Label.noConfusion) (fun _ hp => by cases hp)
      fun _ _ hp => by cases hp)
  cases hr
  exact ⟨_, _, _, rfl⟩

theorem complete_step {s : Session} {L : FullIndex} (hl : s.loop 1 = some L) (htodo : L.todo = [])
    (hid : L.artifact = Sample.artifact.id) (hp : s.world.phase 1 = .idle)
    (he : exec noFaults (.completeFull Sample.artifact.id) s.world.db =
      .ok (complete s 1).world.db) : Session.Step s (.complete 1) (complete s 1) := by
  rw [← hid] at he
  exact .complete hl htodo hp he

theorem full_runs (hsilent : ∀ s, C s .silent)
    (hcommit : ∀ s l, (∀ p, l ≠ .fail p) → (∀ p, l = .claim p → s.world.ClaimsDefined p) →
      (∀ p r, l = .publishCatalog p r → r = records) → C s (.commit l)) (hdone : C exhausted (.complete 1)) : SessionRuns C full :=
  SessionRuns.tail (exhausted_runs hsilent hcommit) (complete_step rfl rfl rfl rfl rfl) hdone

end Runs

theorem ready_idle (q : Nat) : ready.phase q = .idle := by
  show Function.update (Function.update (Function.update (Function.update (Function.update
    (Function.update (fun _ => Phase.idle) 0 _) 0 _) 0 .idle) 1 _) 1 _) 1 .idle q = .idle
  by_cases h1 : q = 1
  · rw [h1, Function.update_self]
  · rw [Function.update_of_ne h1, Function.update_of_ne h1, Function.update_of_ne h1]
    by_cases h0 : q = 0
    · rw [h0, Function.update_self]
    · rw [Function.update_of_ne h0, Function.update_of_ne h0, Function.update_of_ne h0]

theorem full_idle (q : Nat) : full.world.phase q = .idle := ready_idle q

/-- Where the process `2` has done something and rests again. -/
theorem idle_of_second {w w' : World} {phase phase' : Phase} (h : ∀ q, w.phase q = .idle)
    (hphase : w'.phase = Function.update (Function.update (Function.update w.phase 2 phase) 2 phase')
      2 .idle) (q : Nat) : w'.phase q = .idle := by
  rw [hphase]
  by_cases h2 : q = 2
  · rw [h2, Function.update_self]
  · rw [Function.update_of_ne h2, Function.update_of_ne h2, Function.update_of_ne h2]
    exact h q

theorem overwritten_runs : SessionRuns anySession overwritten := by
  have h₀ : SessionRuns anySession exhausted :=
    exhausted_runs (fun _ => trivial) fun _ _ _ _ _ => trivial
  have hingest : World.Step ready .silent (ready.move 2 (.ingesting (target ready.db).artifact)) :=
    .ingest (ready_idle 2) (by decide)
  have h₁ : SessionRuns anySession
      ⟨ready.move 2 (.ingesting (target ready.db).artifact), exhausted.loop⟩ := by
    refine SessionRuns.tail h₀ (.silent hingest (fun q => ?_) fun a' ha' hf => ⟨a', ha', rfl, hf⟩)
      trivial
    by_cases h2 : q = 2
    · right
      rw [h2]
      exact ⟨rfl, rfl⟩
    · exact .inl (move_others _ h2)
  have hclaimed : claimCatalog noFaults (Sample.claimDraw "e" "e" 1) (target ready.db).artifact
      .catalog ready.db = .ok refreshingIndexed.world.db := rfl
  have h₂ : SessionRuns anySession refreshingIndexed :=
    SessionRuns.tail h₁ (.commit (.claimCatalog (move_phase _) ⟨by decide, Nat.le_refl 1, rfl⟩
      hclaimed) Label.noConfusion fun _ _ => Label.noConfusion) trivial
  have hpublished : publishCatalog noFaults (target refreshingIndexed.world.db).artifact
      (Sample.claimDraw "e" "e" 1).runId moduleRecord records 2 refreshingIndexed.world.db =
      .ok reset.world.db := rfl
  have h₃ : SessionRuns anySession reset :=
    SessionRuns.tail h₂ (.commit (.publishCatalog rfl hpublished) Label.noConfusion
      fun _ _ => Label.noConfusion) trivial
  exact SessionRuns.tail h₃ (complete_step rfl rfl rfl rfl rfl) trivial

theorem lost_runs : SessionRuns anySession lost := by
  have h₀ : SessionRuns anySession full :=
    full_runs (fun _ => trivial) (fun _ _ _ _ _ => trivial) trivial
  have hread : enter full.world.db.toTables handle true = .ok (.analyse (target full.world.db)) := rfl
  have hent : World.Step full.world .silent
      (full.world.move 2 (.entered (target full.world.db))) := .enter (full_idle 2) hread
  have h₁ : SessionRuns anySession
      ⟨full.world.move 2 (.entered (target full.world.db)), full.loop⟩ := by
    refine SessionRuns.tail h₀ (.silent hent (fun q => ?_) fun a' ha' hf => ⟨a', ha', rfl, hf⟩)
      trivial
    by_cases h2 : q = 2
    · right
      rw [h2]
      exact ⟨rfl, rfl⟩
    · exact .inl (move_others _ h2)
  have hclaimed : claimFunction noFaults (Sample.claimDraw "b" "b" 1) (target full.world.db)
      full.world.db = .ok reanalysing.world.db := rfl
  have h₂ : SessionRuns anySession reanalysing :=
    SessionRuns.tail h₁ (.commit (.claim (move_phase _) ⟨by decide, Nat.le_refl 1, rfl⟩ hclaimed)
      Label.noConfusion fun _ _ => Label.noConfusion) trivial
  have hfailed : failFunction noFaults (target full.world.db) "run:b" "b" "bad_alloc" 2
      reanalysing.world.db = .ok lost.world.db := rfl
  have hphase : reanalysing.world.phase 2 =
      .analysing (target full.world.db) (Sample.claimDraw "b" "b" 1) := rfl
  have hfail : World.Step reanalysing.world (.fail 2) lost.world := .fail hphase hfailed
  exact SessionRuns.tail h₂ (.commit hfail Label.noConfusion fun _ _ => Label.noConfusion) trivial

end Scenario

/-- **Two ways to a full level that lies**, with no process at work: a full index that ends after
    the refresh of another process leaves the level full and the function `catalog_only`; a
    failed analysis after a full index leaves the level full and the function `failed`. -/
theorem full_level_lies :
    (SessionRuns Scenario.anySession Scenario.overwritten ∧
      (∀ q, Scenario.overwritten.world.phase q = .idle) ∧
      ∃ a ∈ Scenario.overwritten.world.db.artifacts, a.completedIndexLevel = .full ∧
        ∃ m ∈ Scenario.overwritten.world.db.materializations, m.artifactId = a.id ∧
          m.status = .catalogOnly) ∧
    (SessionRuns Scenario.anySession Scenario.lost ∧
      (∀ q, Scenario.lost.world.phase q = .idle) ∧
      ∃ a ∈ Scenario.lost.world.db.artifacts, a.completedIndexLevel = .full ∧
        ∃ m ∈ Scenario.lost.world.db.materializations, m.artifactId = a.id ∧
          m.status = .failed) := by
  refine ⟨⟨Scenario.overwritten_runs, ?_, by decide⟩, ⟨Scenario.lost_runs, ?_, by decide⟩⟩
  · exact Scenario.idle_of_second Scenario.ready_idle rfl
  · exact Scenario.idle_of_second Scenario.full_idle rfl

/-- The function of a completed full index. -/
theorem full_level_tells_the_truth_full :
    ∃ a ∈ Scenario.full.world.db.artifacts, a.completedIndexLevel = .full ∧
      (∀ m ∈ Scenario.full.world.db.materializations, m.artifactId = a.id →
        m.status = .structureReady) ∧
      ∃ m ∈ Scenario.full.world.db.materializations, m.artifactId = a.id ∧
        m.functionId = entityId a (functionLocal "f0") ∧ m.status = .structureReady := by
  have hloop : Scenario.exhausted.loop 1 = some ⟨Sample.artifact.id, [], false⟩ := rfl
  have hcommit : ∀ s l, (∀ p, l ≠ .fail p) → (∀ p, l = .claim p → s.world.ClaimsDefined p) →
      tellsTruth s (.commit l) := by
    intro s l hfail hclaim
    cases l with
    | claim p => exact hclaim p rfl
    | fail p => exact absurd rfl (hfail p)
    | _ => trivial
  have hdone : tellsTruth Scenario.exhausted (.complete 1) := by
    intro L hL
    rw [hloop] at hL
    obtain rfl := Option.some.inj hL
    rfl
  have hruns : SessionRuns tellsTruth Scenario.full :=
    Scenario.full_runs (fun _ => trivial) (fun s l hfail hclaim _ => hcommit s l hfail hclaim) hdone
  -- every catalog of the run is the one of the module
  have hfrom : SessionRuns (fun s l => tellsTruth s l ∧ catalogsFrom (fun _ => Scenario.module) s l)
      Scenario.full := by
    refine Scenario.full_runs (fun _ => ⟨trivial, trivial⟩) (fun s l hfail hclaim hrecords =>
      ⟨hcommit s l hfail hclaim, ?_⟩) ⟨hdone, trivial⟩
    cases l with
    | publishCatalog p r => exact fun _ _ _ => hrecords p r rfl
    | _ => trivial
  obtain ⟨a, ha, hfull, hid⟩ : ∃ a ∈ Scenario.full.world.db.artifacts,
      a.completedIndexLevel = .full ∧ a.id = Sample.artifact.id :=
    ⟨_, List.mem_singleton.mpr rfl, rfl, rfl⟩
  have hquiet : ∀ q target d, Scenario.full.world.phase q = .analysing target d →
      target.artifact.id ≠ a.id := by
    intro q target d hq
    rw [Scenario.full_idle q] at hq
    cases hq
  have hrow : ∃ m ∈ Scenario.full.world.db.materializations, m.artifactId = Sample.artifact.id := by
    decide
  have hdefined : ∀ m ∈ Scenario.full.world.db.materializations, m.status ≠ .declarationOnly := by
    decide
  rw [← hid] at hrow
  have htruth := full_level_tells_the_truth hruns a ha hfull hquiet
  exact ⟨a, ha, hfull, fun m hm hart => htruth.1 m hm hart (hdefined m hm),
    htruth.2 _ hfrom (Or.inr hrow) 0 (Collision.function "main") rfl rfl⟩

end Irez
