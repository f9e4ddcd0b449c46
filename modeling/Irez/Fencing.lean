/-
  File:      Irez/Fencing.lean
  Subject:   The catalog claims of `ingest` and `reindex`: what an artifact's row says of its
             catalog over every interleaving, takeovers of stale claims included.

  The claim's UPDATE looks at status and age. The publish and the failure name the artifact
  only, so what they do is right as long as the process that commits them is the last one
  that claimed.

  * `notTakenOver` -- a catalog is published, or failed, by the process that claimed it last;
  * `CatalogRows` -- what an artifact's row says of its catalog run;
  * `catalog_claims_fenced` -- in every run of such steps the rows are right, and only the
    holder of the claim ends it;
  * `late_publish` -- a process that finishes after a takeover leaves a ready catalog with a
    running run.
-/
import Irez.System

open Irez.Basis

namespace Irez

/-! ## 1. The last claim -/

/-- The owner of the last claim on an artifact's catalog. -/
def World.lastClaim (w : World) (artifactId : String) : Option String :=
  (lookup Prod.fst artifactId w.claims).map Prod.snd

/-- A process that publishes or fails a catalog is the last one that claimed it. -/
def World.NotTakenOver (w : World) (p : Nat) : Prop :=
  ∀ a d, w.phase p = .cataloging a d → w.lastClaim a.id = some d.owner

def notTakenOver : Condition
  | w, .publishCatalog p _ => w.NotTakenOver p
  | w, .failCatalog p => w.NotTakenOver p
  | _, _ => True

/-! ## 2. The rows of artifacts -/

/-- The run is over: no process is at work under it. -/
def World.Settled (w : World) (run : String) : Prop :=
  ∀ p d, (w.phase p).claim = some d → d.runId ≠ run

/-- The row of an artifact names a run of the given status, which is over. -/
def World.RanTo (w : World) (row : Artifact) (status : RunStatus) : Prop :=
  ∃ r ∈ w.db.runs, row.catalogRunId = some r.id ∧ r.status = status ∧ w.Settled r.id

/-- The row of the artifact shows the claim `d`. -/
structure Artifact.Shows (row : Artifact) (d : ClaimDraw) : Prop where
  status : row.catalogStatus = .cataloging
  owner : row.catalogClaimOwner = some d.owner
  run : row.catalogRunId = some d.runId
  error : row.catalogErrorJson = none

structure CatalogRows (w : World) : Prop where
  held : ∀ p a d, w.phase p = .cataloging a d → w.lastClaim a.id = some d.owner →
    ∃ row ∈ w.db.artifacts, row.id = a.id ∧ row.Shows d
  ready : ∀ row ∈ w.db.artifacts, row.catalogStatus = .catalogReady →
    row.catalogErrorJson = none ∧ w.RanTo row .success
  failed : ∀ row ∈ w.db.artifacts, row.catalogStatus = .failed → w.RanTo row .failed

/-- The columns of a row that are about its catalog. -/
structure Artifact.SameCatalog (row row' : Artifact) : Prop where
  id : row'.id = row.id
  status : row'.catalogStatus = row.catalogStatus
  owner : row'.catalogClaimOwner = row.catalogClaimOwner
  run : row'.catalogRunId = row.catalogRunId
  error : row'.catalogErrorJson = row.catalogErrorJson

theorem Artifact.SameCatalog.refl (row : Artifact) : row.SameCatalog row := ⟨rfl, rfl, rfl, rfl, rfl⟩

theorem Artifact.SameCatalog.shows {row row' : Artifact} (h : row.SameCatalog row') {d : ClaimDraw}
    (hd : row.Shows d) : row'.Shows d where
  status := h.status.trans hd.status
  owner := h.owner.trans hd.owner
  run := h.run.trans hd.run
  error := h.error.trans hd.error

section Steps

variable {w w' : World}

/-- A run that is over stays over, and its row stays. -/
theorem World.RanTo.mono {row row' : Artifact} {status : RunStatus} (h : w.RanTo row status)
    (hrun : row'.catalogRunId = row.catalogRunId)
    (hruns : ∀ r ∈ w.db.runs, w.Settled r.id → r ∈ w'.db.runs)
    (hset : ∀ r ∈ w.db.runs, w.Settled r.id → w'.Settled r.id) : w'.RanTo row' status := by
  obtain ⟨r, hr, hid, hs, hsettled⟩ := h
  exact ⟨r, hruns r hr hsettled, hrun.trans hid, hs, hset r hr hsettled⟩

/-- A step that leaves the catalog columns of every row, and ends no run of others. -/
theorem CatalogRows.same (h : CatalogRows w)
    (hrows : ∀ row' ∈ w'.db.artifacts, row'.catalogStatus = .stored ∨
      ∃ row ∈ w.db.artifacts, row.SameCatalog row')
    (hkept : ∀ row ∈ w.db.artifacts, ∃ row' ∈ w'.db.artifacts, row.SameCatalog row')
    (hclaims : w'.claims = w.claims)
    (hphase : ∀ p a d, w'.phase p = .cataloging a d → w.phase p = .cataloging a d)
    (hruns : ∀ r ∈ w.db.runs, w.Settled r.id → r ∈ w'.db.runs)
    (hset : ∀ r ∈ w.db.runs, w.Settled r.id → w'.Settled r.id) : CatalogRows w' where
  held p a d hp hlast := by
    have hlast : w.lastClaim a.id = some d.owner := by
      unfold World.lastClaim at hlast ⊢
      rw [← hclaims]
      exact hlast
    obtain ⟨row, hrow, hid, hshows⟩ := h.held p a d (hphase p a d hp) hlast
    obtain ⟨row', hrow', hsame⟩ := hkept row hrow
    exact ⟨row', hrow', hsame.id.trans hid, hsame.shows hshows⟩
  ready row' hrow' hs := by
    rcases hrows row' hrow' with hstored | ⟨row, hrow, hsame⟩
    · rw [hstored] at hs
      cases hs
    · obtain ⟨he, hr⟩ := h.ready row hrow (hsame.status.symm.trans hs)
      exact ⟨hsame.error.trans he, hr.mono hsame.run hruns hset⟩
  failed row' hrow' hs := by
    rcases hrows row' hrow' with hstored | ⟨row, hrow, hsame⟩
    · rw [hstored] at hs
      cases hs
    · exact (h.failed row hrow (hsame.status.symm.trans hs)).mono hsame.run hruns hset

/-- The runs of others are kept where a process ends its own. -/
theorem mem_endRun {runs : List Run} {r : Run} (hr : r ∈ runs) {id : String} (hid : r.id ≠ id)
    (g : Run → Run) : r ∈ updateWhere (·.id = id) g runs := by
  refine mem_updateWhere.mpr ⟨r, hr, ?_⟩
  rw [if_neg (by simpa using hid)]

/-- Where one process moves on without a new claim, what is settled stays so. -/
theorem World.Settled.move {run : String} (h : w.Settled run) {p : Nat} {phase : Phase}
    (hphase : w'.phase = Function.update w.phase p phase)
    (hclaim : ∀ d, phase.claim = some d → d.runId ≠ run) : w'.Settled run := by
  intro q d hq
  rw [hphase] at hq
  by_cases hqp : q = p
  · rw [hqp, Function.update_self] at hq
    exact hclaim d hq
  · rw [Function.update_of_ne hqp] at hq
    exact h q d hq

/-- A process moves to a phase in which it does not catalog. -/
theorem cataloging_of_move {p : Nat} {phase : Phase} (hphase : w'.phase = Function.update w.phase p phase)
    (hno : ∀ a d, phase ≠ .cataloging a d) :
    ∀ q a d, w'.phase q = .cataloging a d → w.phase q = .cataloging a d := by
  intro q a d hq
  rw [hphase] at hq
  by_cases hqp : q = p
  · rw [hqp, Function.update_self] at hq
    exact absurd hq (hno a d)
  · rwa [Function.update_of_ne hqp] at hq

/-- The rows of the tables where a statement leaves the catalog columns. -/
theorem sameCatalog_of_update (t t' : Tables) {c : Artifact → Bool} {g : Artifact → Artifact}
    (h : t'.artifacts = updateWhere c g t.artifacts) (hg : ∀ a : Artifact, a.SameCatalog (g a)) :
    (∀ row' ∈ t'.artifacts, row'.catalogStatus = .stored ∨
      ∃ row ∈ t.artifacts, row.SameCatalog row') ∧
    ∀ row ∈ t.artifacts, ∃ row' ∈ t'.artifacts, row.SameCatalog row' := by
  have hcol : ∀ a : Artifact, a.SameCatalog (if c a then g a else a) := by
    intro a
    split
    · exact hg a
    · exact .refl a
  rw [h]
  constructor
  · intro row' hrow'
    obtain ⟨row, hrow, rfl⟩ := mem_updateWhere.mp hrow'
    exact Or.inr ⟨row, hrow, hcol row⟩
  · intro row hrow
    exact ⟨_, mem_updateWhere.mpr ⟨row, hrow, rfl⟩, hcol row⟩

theorem sameCatalog_of_eq (t t' : Tables) (h : t'.artifacts = t.artifacts) :
    (∀ row' ∈ t'.artifacts, row'.catalogStatus = .stored ∨
      ∃ row ∈ t.artifacts, row.SameCatalog row') ∧
    ∀ row ∈ t.artifacts, ∃ row' ∈ t'.artifacts, row.SameCatalog row' := by
  rw [h]
  exact ⟨fun row hrow => Or.inr ⟨row, hrow, .refl row⟩, fun row hrow => ⟨row, hrow, .refl row⟩⟩

/-- **The holder ends its claim**: the row of its artifact is rewritten, its run ends with
    the status the row now claims, and nobody else notices. -/
theorem CatalogRows.end (h : CatalogRows w) (hg : Grounded w) {p : Nat} {a : Artifact}
    {d : ClaimDraw} (hp : w.phase p = .cataloging a d) (hlast : w.lastClaim a.id = some d.owner)
    {g : Artifact → Artifact} {status : RunStatus} {endedAt : Time} {error : Option ErrorJson}
    {db' : Database} (hart : db'.artifacts = updateWhere (·.id = a.id) g w.db.artifacts)
    (hruns : db'.runs = updateWhere (·.id = d.runId) (Run.ended status endedAt error) w.db.runs)
    (hrun : ∀ row, (g row).catalogRunId = row.catalogRunId)
    (hstatus : ∀ row, ((g row).catalogStatus = .catalogReady ∧ status = .success ∧
      (g row).catalogErrorJson = row.catalogErrorJson) ∨
      ((g row).catalogStatus = .failed ∧ status = .failed)) :
    CatalogRows { w.move p .idle with db := db' } := by
  have hclaim : (w.phase p).claim = some d := by
    rw [hp]
    rfl
  obtain ⟨row₀, hrow₀, hrid₀, hshows⟩ := h.held p a d hp hlast
  have hkeep : ∀ r ∈ w.db.runs, w.Settled r.id → r ∈ db'.runs := by
    intro r hr hset
    rw [hruns]
    exact mem_endRun hr (fun he => hset p d hclaim he.symm) _
  have hset : ∀ run, w.Settled run → World.Settled { w.move p .idle with db := db' } run :=
    fun run hs => World.Settled.move (w := w) hs rfl fun d hd => by cases hd
  -- the run of the claim ends with the status, and no other process is under it
  have hown : World.RanTo { w.move p .idle with db := db' } row₀ status := by
    obtain ⟨_, hmem⟩ := hg.drawn p d hclaim
    obtain ⟨r, hr, hrid⟩ := List.mem_map.mp hmem
    refine ⟨Run.ended status endedAt error r, ?_, hshows.run.trans (congrArg some hrid.symm), rfl,
      fun q d' hq => ?_⟩
    · show _ ∈ db'.runs
      rw [hruns]
      refine mem_updateWhere.mpr ⟨r, hr, ?_⟩
      rw [if_pos (decide_eq_true hrid)]
    · have hq : (Function.update w.phase p .idle q).claim = some d' := hq
      by_cases hqp : q = p
      · rw [hqp, Function.update_self] at hq
        cases hq
      · rw [Function.update_of_ne hqp] at hq
        intro he
        exact hqp (hg.distinct q p d' d hq hclaim (Or.inr (he.trans hrid)))
  have hcase : ∀ row' ∈ db'.artifacts, row' = g row₀ ∨ (row' ∈ w.db.artifacts ∧ row'.id ≠ a.id) := by
    intro row' hrow'
    rw [hart] at hrow'
    obtain ⟨row, hrow, rfl⟩ := mem_updateWhere.mp hrow'
    by_cases hra : row.id = a.id
    · obtain rfl := List.inj_on_of_nodup_map w.db.constraints.artifactKey hrow hrow₀
        (hra.trans hrid₀.symm)
      rw [if_pos (decide_eq_true hra)]
      exact Or.inl rfl
    · rw [if_neg (by simpa using hra)]
      exact Or.inr ⟨hrow, hra⟩
  refine ⟨fun q b e hq hql => ?_, fun row' hrow' hs => ?_, fun row' hrow' hs => ?_⟩
  · have hphase : ({ w.move p .idle with db := db' } : World).phase =
        Function.update w.phase p .idle := rfl
    have hqw := cataloging_of_move hphase (fun _ _ => Phase.noConfusion) q b e hq
    have hqp : q ≠ p := by
      intro hqp
      have hq : Function.update w.phase p .idle q = .cataloging b e := hq
      rw [hqp, Function.update_self] at hq
      cases hq
    have hne : b.id ≠ a.id := by
      intro hba
      have hql : w.lastClaim b.id = some e.owner := hql
      rw [hba, hlast] at hql
      refine hqp (hg.distinct q p e d ?_ hclaim (Or.inl (Option.some.inj hql).symm))
      rw [hqw]
      rfl
    obtain ⟨row, hrow, hrid, hsh⟩ := h.held q b e hqw hql
    refine ⟨row, ?_, hrid, hsh⟩
    show row ∈ db'.artifacts
    rw [hart]
    refine mem_updateWhere.mpr ⟨row, hrow, ?_⟩
    rw [if_neg (by simpa using fun he : row.id = a.id => hne (hrid.symm.trans he))]
  · rcases hcase row' hrow' with rfl | ⟨hrow, _⟩
    · rcases hstatus row₀ with ⟨_, hst, herr⟩ | ⟨hf, _⟩
      · refine ⟨herr.trans hshows.error, ?_⟩
        obtain ⟨r, hr, hid', hrs, hse⟩ := hown
        exact ⟨r, hr, (hrun row₀).trans hid', hrs.trans hst, hse⟩
      · rw [hf] at hs
        cases hs
    · obtain ⟨he, hr⟩ := h.ready row' hrow hs
      exact ⟨he, hr.mono rfl hkeep fun r _ => hset r.id⟩
  · rcases hcase row' hrow' with rfl | ⟨hrow, _⟩
    · rcases hstatus row₀ with ⟨hr, _, _⟩ | ⟨_, hst⟩
      · rw [hr] at hs
        cases hs
      · obtain ⟨r, hr, hid', hrs, hse⟩ := hown
        exact ⟨r, hr, (hrun row₀).trans hid', hrs.trans hst, hse⟩
    · exact (h.failed row' hrow hs).mono rfl hkeep fun r _ => hset r.id

/-- The row of the artifact after a claim, and the rows of the others. -/
theorem claimCatalog_rows {io : Faults} {d : ClaimDraw} {a : Artifact} {index : IndexLevel}
    {db db' : Database} (hc : Irez.claimCatalog io d a index db = .ok db') :
    (∃ row' ∈ db'.artifacts, row'.id = a.id ∧ row'.Shows d) ∧
    (∀ row' ∈ db'.artifacts, row'.id = a.id → row'.catalogStatus = .cataloging) ∧
    (∀ row : Artifact, row.id ≠ a.id → (row ∈ db'.artifacts ↔ row ∈ db.artifacts)) ∧
    ∃ run : Run, run.id = d.runId ∧ db'.runs = db.runs ++ [run] := by
  obtain ⟨inv, _, hone, _, ht⟩ := claimCatalog_ok hc
  have hart : db'.artifacts = _ := congrArg Tables.artifacts ht
  unfold Tables.claimableArtifacts at hone
  obtain ⟨row, hrow⟩ := List.length_eq_one_iff.mp hone
  obtain ⟨hmem, hcond⟩ := List.mem_filter.mp (hrow ▸ List.mem_singleton.mpr rfl)
  have hid : row.id = a.id := by
    simp only [Bool.and_eq_true, decide_eq_true_eq] at hcond
    exact hcond.1
  -- the artifact has one row, and the UPDATE meets it
  have honly : ∀ row' ∈ db.artifacts, row'.id = a.id → row' = row := fun row' hrow' hid' =>
    List.inj_on_of_nodup_map db.constraints.artifactKey hrow' hmem (hid'.trans hid.symm)
  have hmem' : ∀ row' : Artifact, row' ∈ db'.artifacts ↔
      (row' ∈ db.artifacts ∧ row'.id ≠ a.id) ∨
        row' = { Artifact.claimed d.owner d.claimedAt index row with catalogRunId := some d.runId } := by
    intro row'
    rw [hart]
    constructor
    · intro hm
      obtain ⟨row₁, hrow₁, rfl⟩ := mem_updateWhere.mp hm
      obtain ⟨row₂, hrow₂, rfl⟩ := mem_updateWhere.mp hrow₁
      by_cases hid₂ : row₂.id = a.id
      · obtain rfl := honly row₂ hrow₂ hid₂
        have hidc : (Artifact.claimed d.owner d.claimedAt index row₂).id = a.id := hid₂
        right
        rw [if_pos hcond, if_pos (decide_eq_true hidc)]
      · left
        simp only [hid₂, decide_false, Bool.false_and, Bool.false_eq_true, if_false]
        exact ⟨hrow₂, hid₂⟩
    · intro hm
      rcases hm with ⟨hm, hne⟩ | rfl
      · refine mem_updateWhere.mpr ⟨row', mem_updateWhere.mpr ⟨row', hm, ?_⟩, ?_⟩
        · simp [hne]
        · simp [hne]
      · have hidc : (Artifact.claimed d.owner d.claimedAt index row).id = a.id := hid
        refine mem_updateWhere.mpr ⟨_, mem_updateWhere.mpr ⟨row, hmem, rfl⟩, ?_⟩
        rw [if_pos hcond, if_pos (decide_eq_true hidc)]
  refine ⟨⟨_, (hmem' _).mpr (Or.inr rfl), hid, ⟨rfl, rfl, rfl, rfl⟩⟩, ?_, ?_, _, rfl, by rw [ht]⟩
  · intro row' hrow' hid'
    rcases (hmem' row').mp hrow' with ⟨_, hne⟩ | rfl
    · exact absurd hid' hne
    · rfl
  · intro row' hne
    refine ⟨fun hm => ?_, fun hm => (hmem' row').mpr (Or.inl ⟨hm, hne⟩)⟩
    rcases (hmem' row').mp hm with ⟨hm, _⟩ | rfl
    · exact hm
    · exact absurd hid hne

/-- A new claim rewrites the row of its artifact. -/
theorem CatalogRows.claim (h : CatalogRows w) (hg : Grounded w) {p : Nat} {io : Faults}
    {a : Artifact} {d : ClaimDraw} {index : IndexLevel} {db' : Database} (hd : w.Draws d)
    (hc : Irez.claimCatalog io d a index w.db = .ok db') :
    CatalogRows { w.move p (.cataloging a d) with
      db := db', issued := d.owner :: w.issued, claims := (a.id, d.owner) :: w.claims } := by
  obtain ⟨_, _, _, hnew, _⟩ := claimCatalog_ok hc
  obtain ⟨⟨row₀, hrow₀, hid₀, hsh₀⟩, hall, hothers, run, hrid, hruns⟩ := claimCatalog_rows hc
  have hkeep : ∀ r ∈ w.db.runs, w.Settled r.id → r ∈ db'.runs := by
    intro r hr _
    rw [hruns]
    exact List.mem_append_left _ hr
  have hset : ∀ r ∈ w.db.runs, w.Settled r.id → World.Settled { w.move p (.cataloging a d) with
      db := db', issued := d.owner :: w.issued, claims := (a.id, d.owner) :: w.claims } r.id := by
    intro r hr hs
    refine World.Settled.move (w := w) hs rfl fun d' hd' he => ?_
    cases hd'
    exact hnew (he ▸ List.mem_map_of_mem hr)
  -- a ready or failed row is a row of another artifact
  have hold : ∀ row ∈ db'.artifacts, row.catalogStatus ≠ .cataloging → row ∈ w.db.artifacts := by
    intro row hrow hs
    have hne : row.id ≠ a.id := fun hid => hs (hall row hrow hid)
    exact (hothers row hne).mp hrow
  refine ⟨fun q b e hq hql => ?_, fun row hrow hs => ?_, fun row hrow hs => ?_⟩
  · have hq : Function.update w.phase p (.cataloging a d) q = .cataloging b e := hq
    by_cases hqp : q = p
    · rw [hqp, Function.update_self] at hq
      cases hq
      exact ⟨row₀, hrow₀, hid₀, hsh₀⟩
    · rw [Function.update_of_ne hqp] at hq
      have hne : a.id ≠ b.id := by
        intro hab
        have hlast : World.lastClaim { w.move p (.cataloging a d) with
            db := db', issued := d.owner :: w.issued, claims := (a.id, d.owner) :: w.claims }
            b.id = some d.owner := by
          unfold World.lastClaim lookup
          simp [hab]
        rw [hlast] at hql
        have hmem : e.owner ∈ w.issued := (hg.drawn q e (by rw [hq]; rfl)).1
        rw [← Option.some.inj hql] at hmem
        exact hd.fresh hmem
      have hql : w.lastClaim b.id = some e.owner := by
        unfold World.lastClaim lookup at hql ⊢
        simpa [hne] using hql
      obtain ⟨row, hrow, hrid', hsh⟩ := h.held q b e hq hql
      refine ⟨row, (hothers row ?_).mpr hrow, hrid', hsh⟩
      rw [hrid']
      exact hne.symm
  · have hrow := hold row hrow (by rw [hs]; decide)
    obtain ⟨he, hr⟩ := h.ready row hrow hs
    exact ⟨he, hr.mono rfl hkeep hset⟩
  · have hrow := hold row hrow (by rw [hs]; decide)
    exact (h.failed row hrow hs).mono rfl hkeep hset

/-- The index levels are no columns of the catalog. -/
theorem mark_artifacts {io : Faults} {s : Statement} {db db' : Database}
    (hm : ∃ id, s = .requestFull id ∨ s = .completeFull id) (he : exec io s db = .ok db') :
    ∃ c g, db'.artifacts = updateWhere c g db.artifacts ∧ ∀ a : Artifact, a.SameCatalog (g a) := by
  have ht := exec_ok he
  obtain ⟨id, rfl | rfl⟩ := hm
  · exact ⟨(·.id = id), fun a => { a with requestedIndexLevel := .full }, by rw [ht]; rfl,
      fun _ => ⟨rfl, rfl, rfl, rfl, rfl⟩⟩
  · exact ⟨(·.id = id), fun a => { a with completedIndexLevel := .full }, by rw [ht]; rfl,
      fun _ => ⟨rfl, rfl, rfl, rfl, rfl⟩⟩

/-- **One step keeps the rows of artifacts right.** -/
theorem CatalogRows.step {l : Label} (h : CatalogRows w) (hg : Grounded w)
    (hs : World.Step w l w') (hC : notTakenOver w l) : CatalogRows w' := by
  -- the function transactions leave the artifacts and end no run but their own
  have hfunction : ∀ {p : Nat} {target : Target} {d : ClaimDraw} {db' : Database} {g : Run → Run},
      w.phase p = .analysing target d → db'.artifacts = w.db.artifacts →
      db'.runs = updateWhere (·.id = d.runId) g w.db.runs →
      CatalogRows { w.move p .idle with db := db' } := by
    intro p target d db' g hp hart hruns
    have hclaim : (w.phase p).claim = some d := by
      rw [hp]
      rfl
    obtain ⟨hrows, hkept⟩ := sameCatalog_of_eq w.db.toTables db'.toTables hart
    refine h.same hrows hkept rfl (cataloging_of_move rfl fun _ _ => Phase.noConfusion) ?_ ?_
    · intro r hr hset
      show r ∈ db'.runs
      rw [hruns]
      exact mem_endRun hr (fun he => hset p d hclaim he.symm) g
    · exact fun r _ hset => hset.move rfl fun d hd => by cases hd
  -- a process moves on without a claim, and the database is as it was
  have hstill : ∀ {p : Nat} {phase : Phase}, (∀ a d, phase ≠ .cataloging a d) →
      phase.claim = none → CatalogRows (w.move p phase) := by
    intro p phase hno hclaim
    obtain ⟨hrows, hkept⟩ := sameCatalog_of_eq w.db.toTables w.db.toTables rfl
    refine h.same hrows hkept rfl (cataloging_of_move rfl hno) (fun r hr _ => hr) ?_
    intro r _ hset
    refine hset.move rfl fun d hd => ?_
    rw [hclaim] at hd
    cases hd
  cases hs with
  | tick hl =>
    obtain ⟨hrows, hkept⟩ := sameCatalog_of_eq w.db.toTables w.db.toTables rfl
    exact h.same hrows hkept rfl (fun _ _ _ hq => hq) (fun r hr _ => hr) fun _ _ hset => hset
  | @init row db' _ ht =>
    obtain ⟨hrows, hkept⟩ := sameCatalog_of_eq w.db.toTables db'.toTables (by rw [ht])
    refine h.same hrows hkept rfl (fun _ _ _ hq => hq) (fun r hr _ => ?_) fun _ _ hset => hset
    show r ∈ db'.runs
    rw [ht]
    exact hr
  | @store io a db' ha hst he =>
    have ht := exec_ok he
    have hart : db'.artifacts = w.db.artifacts ++ [a] := by rw [ht]; rfl
    refine h.same (fun row' hrow' => ?_) (fun row hrow => ?_) rfl (fun _ _ _ hq => hq)
      (fun r hr _ => ?_) fun _ _ hset => hset
    · have hrow' : row' ∈ db'.artifacts := hrow'
      rw [hart] at hrow'
      rcases List.mem_append.mp hrow' with hrow | hrow
      · exact Or.inr ⟨row', hrow, .refl row'⟩
      · rw [List.mem_singleton.mp hrow]
        exact Or.inl hst.status
    · refine ⟨row, ?_, .refl row⟩
      show row ∈ db'.artifacts
      rw [hart]
      exact List.mem_append_left _ hrow
    · show r ∈ db'.runs
      rw [ht]
      exact hr
  | @mark io s db' hm he =>
    have ht := exec_ok he
    obtain ⟨c, g, hart, hg⟩ := mark_artifacts hm he
    obtain ⟨hrows, hkept⟩ := sameCatalog_of_update w.db.toTables db'.toTables hart hg
    refine h.same hrows hkept rfl (fun _ _ _ hq => hq) (fun r hr _ => ?_) fun _ _ hset => hset
    show r ∈ db'.runs
    rw [ht]
    obtain ⟨id, rfl | rfl⟩ := hm
    · exact hr
    · exact hr
  | enter hp he => exact hstill (fun _ _ => Phase.noConfusion) rfl
  | @claim p io d target db' hp hd hc =>
    obtain ⟨inv, _, _, hnew, ht⟩ := claimFunction_ok hc
    obtain ⟨hrows, hkept⟩ := sameCatalog_of_eq w.db.toTables db'.toTables
      (by rw [ht])
    refine h.same hrows hkept rfl (cataloging_of_move rfl fun _ _ => Phase.noConfusion) ?_ ?_
    · intro r hr _
      show r ∈ db'.runs
      rw [ht]
      exact List.mem_append_left _ hr
    · intro r hr hset
      refine hset.move rfl fun d' hd' he => ?_
      cases hd'
      exact hnew (he ▸ List.mem_map_of_mem hr)
  | @publish p io d target draw records db' hp he =>
    obtain ⟨hart, hruns, _⟩ := Publish.exec_claims he
    exact hfunction hp hart hruns
  | @fail p io d target message endedAt db' hp he =>
    have ht := failFunction_ok he
    exact hfunction hp (by rw [ht]) (by rw [ht])
  | ingest hp ha => exact hstill (fun _ _ => Phase.noConfusion) rfl
  | claimCatalog hp hd hc => exact h.claim hg hd hc
  | @publishCatalog p io d a module records endedAt db' hp he =>
    obtain ⟨hart, hruns, _⟩ := publishCatalog_claims he
    exact h.end hg hp (hC a d hp) hart hruns (fun _ => rfl) fun _ => Or.inl ⟨rfl, rfl, rfl⟩
  | @failCatalog p io d a message endedAt db' hp he =>
    have ht := failCatalog_ok he
    exact h.end (g := Artifact.failed (errorJson message)) hg hp (hC a d hp) (by rw [ht])
      (by rw [ht]) (fun _ => rfl) fun _ => Or.inr ⟨rfl, rfl⟩
  | leave => exact hstill (fun _ _ => Phase.noConfusion) rfl

theorem World.Initial.catalogRows (h : w.Initial) : CatalogRows w where
  held p a d hp := by
    rw [h.idle p] at hp
    cases hp
  ready row hrow := by
    rw [h.artifacts] at hrow
    exact absurd hrow List.not_mem_nil
  failed row hrow := by
    rw [h.artifacts] at hrow
    exact absurd hrow List.not_mem_nil

/-- **The rows of artifacts are right in every world reached.** -/
theorem Runs.catalogRows (h : Runs notTakenOver w) : CatalogRows w := by
  have hboth : Grounded w ∧ CatalogRows w :=
    h.invariant (I := fun w => Grounded w ∧ CatalogRows w)
      (fun w₀ h₀ => ⟨h₀.grounded, h₀.catalogRows⟩)
      fun hI hs hC => ⟨hI.1.step hs, hI.2.step hI.1 hs hC⟩
  exact hboth.2

end Steps

/-! ## 3. Fenced catalogs -/

/-- The process `p` is at work on the artifact's catalog, and the row of the artifact names
    it as the owner of the claim. -/
def World.HoldsCatalog (w : World) (p : Nat) (artifactId : String) : Prop :=
  ∃ a d, w.phase p = .cataloging a d ∧ a.id = artifactId ∧
    ∃ row ∈ w.db.artifacts, row.id = artifactId ∧ row.catalogClaimOwner = some d.owner

/-- A process that was not taken over holds its claim. -/
theorem CatalogRows.holds {w : World} (h : CatalogRows w) {p : Nat} {a : Artifact} {d : ClaimDraw}
    (hp : w.phase p = .cataloging a d) (hlast : w.lastClaim a.id = some d.owner) :
    w.HoldsCatalog p a.id := by
  obtain ⟨row, hrow, hid, hshows⟩ := h.held p a d hp hlast
  exact ⟨a, d, hp, rfl, row, hrow, hid, hshows.owner⟩

/-- A row of an updated table, where the table has one row of that id. -/
theorem row_of_update {rows : List Artifact} (hk : Keyed Artifact.id rows) {c : Artifact → Bool}
    {g : Artifact → Artifact} (hg : ∀ a, (g a).id = a.id) {row row' : Artifact} (hr : row ∈ rows)
    (hr' : row' ∈ updateWhere c g rows) (hid : row'.id = row.id) :
    row' = if c row then g row else row := by
  obtain ⟨row₀, hrow₀, rfl⟩ := mem_updateWhere.mp hr'
  have hid₀ : row₀.id = row.id := by
    split at hid
    · exact (hg row₀).symm.trans hid
    · exact hid
  rw [List.inj_on_of_nodup_map hk hrow₀ hr hid₀]

/-- The step publishes the catalog the process `p` is at work on, or fails it. -/
def Label.EndsCatalog (l : Label) (p : Nat) : Prop :=
  (∃ records, l = .publishCatalog p records) ∨ l = .failCatalog p

/-- **A catalog leaves `cataloging` by the hand of its holder only.** -/
theorem CatalogRows.leaves {w w' : World} {l : Label} (h : CatalogRows w) (hs : World.Step w l w')
    (hC : notTakenOver w l) {row row' : Artifact} (hr : row ∈ w.db.artifacts)
    (hr' : row' ∈ w'.db.artifacts) (hid : row'.id = row.id) (hst : row.catalogStatus = .cataloging)
    (hst' : row'.catalogStatus ≠ .cataloging) : ∃ p, l.EndsCatalog p ∧ w.HoldsCatalog p row.id := by
  have hkey : Keyed Artifact.id w.db.artifacts := w.db.constraints.artifactKey
  have hsame : w'.db.artifacts = w.db.artifacts → ∃ p, l.EndsCatalog p ∧ w.HoldsCatalog p row.id := by
    intro hart
    rw [hart] at hr'
    obtain rfl := List.inj_on_of_nodup_map hkey hr' hr hid
    exact absurd hst hst'
  -- an update of the rows of the artifact `a`
  have hupdate : ∀ {p : Nat} {a : Artifact} {d : ClaimDraw} {g : Artifact → Artifact},
      w'.db.artifacts = updateWhere (·.id = a.id) g w.db.artifacts → (∀ a, (g a).id = a.id) →
      w.phase p = .cataloging a d → w.lastClaim a.id = some d.owner → l.EndsCatalog p →
      ∃ p, l.EndsCatalog p ∧ w.HoldsCatalog p row.id := by
    intro p a d g hart hg hp hlast hl
    rw [hart] at hr'
    have hrow := row_of_update hkey hg hr hr' hid
    by_cases hra : row.id = a.id
    · rw [hra]
      exact ⟨p, hl, h.holds hp hlast⟩
    · rw [if_neg (by simpa using hra)] at hrow
      rw [hrow] at hst'
      exact absurd hst hst'
  cases hs with
  | tick _ => exact hsame rfl
  | @init row db' _ ht =>
    refine hsame ?_
    show db'.artifacts = _
    rw [ht]
  | @store io a db' ha hsto he =>
    have hart : db'.artifacts = w.db.artifacts ++ [a] := by rw [exec_ok he]; rfl
    have hmem : row ∈ db'.artifacts := by
      rw [hart]
      exact List.mem_append_left _ hr
    obtain rfl := List.inj_on_of_nodup_map db'.constraints.artifactKey hr' hmem hid
    exact absurd hst hst'
  | @mark io s db' hm he =>
    obtain ⟨c, g, hart, hg⟩ := mark_artifacts hm he
    have hr' : row' ∈ db'.artifacts := hr'
    rw [hart] at hr'
    rw [row_of_update hkey (fun a => (hg a).id) hr hr' hid] at hst'
    split at hst'
    · exact absurd ((hg row).status.trans hst) hst'
    · exact absurd hst hst'
  | enter _ _ => exact hsame rfl
  | @claim p io d target db' hp hd hc =>
    obtain ⟨_, _, _, _, ht⟩ := claimFunction_ok hc
    refine hsame ?_
    show db'.artifacts = _
    rw [ht]
  | @publish p io d target draw records db' hp he => exact hsame (Publish.exec_claims he).1
  | @fail p io d target message endedAt db' hp he =>
    refine hsame ?_
    show db'.artifacts = _
    rw [failFunction_ok he]
  | ingest _ _ => exact hsame rfl
  | @claimCatalog p io d a index db' hp hd hc =>
    obtain ⟨_, hall, hothers, _⟩ := claimCatalog_rows hc
    by_cases hra : row'.id = a.id
    · exact absurd (hall row' hr' hra) hst'
    · have hrow' := (hothers row' hra).mp hr'
      obtain rfl := List.inj_on_of_nodup_map hkey hrow' hr hid
      exact absurd hst hst'
  | @publishCatalog p io d a module records endedAt db' hp he =>
    exact hupdate (publishCatalog_claims he).1 (fun _ => rfl) hp (hC a d hp) (Or.inl ⟨records, rfl⟩)
  | @failCatalog p io d a message endedAt db' hp he =>
    have hart : db'.artifacts = _ := congrArg Tables.artifacts (failCatalog_ok he)
    exact hupdate hart (fun _ => rfl) hp (hC a d hp) (Or.inr rfl)
  | leave => exact hsame rfl

/-- **Catalog claims are fenced.** In every run of any number of processes in which nobody
    publishes or fails a catalog after another process has claimed it since, a ready catalog
    has no error and a successful run and a failed one a failed run; and whoever publishes or
    fails a catalog holds its claim, and nobody else takes it out of `cataloging`. -/
theorem catalog_claims_fenced {w : World} (h : Runs notTakenOver w) :
    (∀ row ∈ w.db.artifacts,
      (row.catalogStatus = .catalogReady → row.catalogErrorJson = none ∧
        ∃ r ∈ w.db.runs, row.catalogRunId = some r.id ∧ r.status = .success) ∧
      (row.catalogStatus = .failed →
        ∃ r ∈ w.db.runs, row.catalogRunId = some r.id ∧ r.status = .failed)) ∧
    ∀ l w', World.Step w l w' → notTakenOver w l →
      (∀ p a d, l.EndsCatalog p → w.phase p = .cataloging a d → w.HoldsCatalog p a.id) ∧
      ∀ row ∈ w.db.artifacts, ∀ row' ∈ w'.db.artifacts, row'.id = row.id →
        row.catalogStatus = .cataloging → row'.catalogStatus ≠ .cataloging →
        ∃ p, l.EndsCatalog p ∧ w.HoldsCatalog p row.id := by
  have hrows := h.catalogRows
  refine ⟨fun row hrow => ⟨fun hs => ?_, fun hs => ?_⟩, fun l w' hs hC => ⟨?_, ?_⟩⟩
  · obtain ⟨he, r, hr, hid, hst, _⟩ := hrows.ready row hrow hs
    exact ⟨he, r, hr, hid, hst⟩
  · obtain ⟨r, hr, hid, hst, _⟩ := hrows.failed row hrow hs
    exact ⟨r, hr, hid, hst⟩
  · intro p a d hl hp
    rcases hl with ⟨records, rfl⟩ | rfl
    · exact hrows.holds hp (hC a d hp)
    · exact hrows.holds hp (hC a d hp)
  · intro row hr row' hr' hid hst hst'
    exact hrows.leaves hs hC hr hr' hid hst hst'

/-! ## 4. A takeover in between -/

namespace Scenario

/-- Ten minutes pass over the claim of the process `0`. -/
def waiting : World := { cataloging with now := 700000 }

/-- The process `1` takes the claim over. -/
def takenOver : World := refreshing waiting 1 (Sample.claimDraw "e" "e" 700000)

/-- The process `0` publishes. -/
def late : World :=
  { takenOver.move 0 .idle with
    db := after (publishCatalog noFaults Sample.artifact catalogDraw.runId moduleRecord records
      700000 takenOver.db) }

end Scenario

/-- A catalog published by the process that claimed it. -/
theorem catalog_claims_fenced_catalogued : Runs notTakenOver Scenario.catalogued ∧
    ∀ row ∈ Scenario.catalogued.db.artifacts, row.catalogStatus = .catalogReady →
      row.catalogErrorJson = none ∧
        ∃ r ∈ Scenario.catalogued.db.runs, row.catalogRunId = some r.id ∧ r.status = .success := by
  have hrun : Runs notTakenOver Scenario.catalogued := by
    refine Scenario.catalogued_runs (fun _ => trivial) (fun _ _ => trivial) ?_
    intro a d hp
    cases hp
    rfl
  exact ⟨hrun, fun row hrow => ((catalog_claims_fenced hrun).1 row hrow).1⟩

/-- **A process that publishes after a takeover** leaves a ready catalog whose run is still
    running. -/
theorem late_publish :
    Runs anyStep Scenario.late ∧ ∃ row ∈ Scenario.late.db.artifacts,
      row.catalogStatus = .catalogReady ∧ row.catalogRunId = some "run:e" ∧
        ∀ r ∈ Scenario.late.db.runs, r.id = "run:e" → r.status = .running := by
  constructor
  · obtain ⟨w₀, h₀, hrun⟩ := Scenario.cataloging_steps (C := anyStep) (fun _ => trivial)
      fun _ _ => trivial
    have htick : World.Step Scenario.cataloging .silent Scenario.waiting := .tick (by decide)
    have hwait : Runs anyStep Scenario.waiting := ⟨w₀, h₀, hrun.tail ⟨_, htick, trivial⟩⟩
    obtain ⟨w₁, h₁, hrun₁⟩ : Runs anyStep Scenario.takenOver :=
      Scenario.refreshing_run hwait trivial trivial rfl (by decide)
        ⟨by decide, Nat.le_refl _, rfl⟩ rfl
    have hpub : World.Step Scenario.takenOver (.publishCatalog 0 Scenario.records) Scenario.late :=
      @World.Step.publishCatalog Scenario.takenOver 0 noFaults Scenario.catalogDraw Sample.artifact
        Scenario.moduleRecord Scenario.records 700000 _ rfl rfl
    exact ⟨w₁, h₁, hrun₁.tail ⟨_, hpub, trivial⟩⟩
  · decide

end Irez
