/-
  File:      Irez/Generations.lean
  Subject:   One generation at a time: whose rows a function's snapshot holds over every
             interleaving of `materialize` and catalog refreshes, with arbitrary delays.

  The publish transaction rewrites relations, source locations and capabilities without
  looking at the claim; only its UPDATE of `materializations` names the owner.

  * `Tables.CarriesRun` -- every row of a function's snapshot was written by one run;
  * `Generations` -- a ready function's rows carry the run its row records, with the
    ownership of rows (`Sound`) that carries the argument;
  * `publish_held_iff` -- a publish leaves the function ready with its own run exactly where
    the process holds the claim;
  * `World.Lost` -- a claim taken over or cleared while its process is under way: it is lost
    for good, and its run leaves no row (`World.Lost.steps`);
  * `materialization_generations` -- all three, in every run whose publishes hold their claim;
  * `late_snapshot` -- a publish after a takeover mixes two runs.
-/
import Irez.System
import Irez.Stream

open Irez.Basis

namespace Irez

/-! ## 1. Rows of one run -/

/-- Every relation, source location and capability of the function was written by the run. -/
structure Tables.CarriesRun (t : Tables) (f : String) (run : Option String) : Prop where
  relations : ∀ r ∈ t.relationsOf f, r.analysisRunId = run
  sources : ∀ s ∈ t.sourcesOf f, s.analysisRunId = run
  capabilities : ∀ c ∈ t.capabilitiesOf f, some c.analysisRunId = run

/-- The process `p` holds the claim on the function it analyses. -/
def World.HoldsFunction (w : World) (p : Nat) : Prop :=
  ∀ target d, w.phase p = .analysing target d → ∃ m ∈ w.db.materializations,
    m.functionId = target.handle ∧ m.claimOwner = some d.owner

/-- A process publishes only while `claim_owner` is its uuid. -/
def publishesHeld : Condition
  | w, .publish p _ => w.HoldsFunction p
  | _, _ => True

/-- The streams published keep to a territory. -/
def streamsIn (T : Territory) : Condition
  | w, .publish p records => ∀ target d draw, w.phase p = .analysing target d →
    (Publish.of target d.runId d.owner draw records).Own T
  | _, _ => True

/-- The processes analyse functions with the key `key`, by the adapter. -/
def analyses (key : String) : Condition
  | w, .publish p records => ∀ target d, w.phase p = .analysing target d →
    target.key = key ∧ ∃ pd M, records = functionGraph pd M key
  | _, _ => True

/-! ## 2. Streams of one function -/

/-- **Where one key is analysed, every stream of the adapter keeps to its territory**,
    whichever function the key selected. -/
theorem functionGraph_own_only {target : Target} {key : String} (hk : target.key = key)
    (pd : Function → PostDominatorTree) (M : Module) (run owner : String) (draw : PublishDraw) :
    (Publish.of target run owner draw (functionGraph pd M key)).Own (.only key) where
  entities e he := by
    have hmem := mem_entityRecords.mp he
    cases hsel : selectFunction key 0 M.functions with
    | none =>
      unfold functionGraph at hmem
      rw [hsel] at hmem
      simp [moduleHeader] at hmem
    | some selected =>
      rcases functionGraph_scoped hsel hmem with ⟨hkind, hl⟩ | ⟨hkind, hl⟩ | ⟨hf, hg, hl⟩
      · exact Or.inl ⟨hkind, _, hl⟩
      · exact Or.inr (Or.inl ⟨hkind, hl⟩)
      · exact Or.inr (Or.inr ⟨hf, hg, hk, hl.colon_mem, hl.head_mem⟩)
  endpoints r _ l _ key' hown := by
    obtain ⟨hkey, _⟩ := hown
    exact hkey.trans hk.symm
  sources s hs := by
    have hmem := mem_sourceRecords.mp hs
    cases hsel : selectFunction key 0 M.functions with
    | none =>
      unfold functionGraph at hmem
      rw [hsel] at hmem
      simp [moduleHeader] at hmem
    | some selected =>
      obtain ⟨e, he, hl, hkind⟩ := functionGraph_source hsel hmem
      refine ⟨e, mem_entityRecords.mpr he, ?_, hl⟩
      unfold EntityRecord.interior
      rw [hkind]
      decide

/-! ## 3. Steps -/

/-- Rows are owned soundly, a ready function's rows carry the run of its row, and no run
    under way has been recorded yet. -/
structure Generations (T : Territory) (w : World) : Prop where
  sound : Sound T w.db.toTables
  entered : ∀ p target, w.phase p = .entered target → target.Named
  analysing : ∀ p target d, w.phase p = .analysing target d → target.Named
  carried : ∀ m ∈ w.db.materializations, m.status = .structureReady →
    w.db.CarriesRun m.functionId m.analysisRunId
  unrecorded : ∀ p d, (w.phase p).claim = some d → ∀ m ∈ w.db.materializations,
    m.analysisRunId ≠ some d.runId

theorem Tables.CarriesRun.of_same {t t' : Tables} {f : String} {run : Option String}
    (h : t.CarriesRun f run) (hr : t'.relationsOf f = t.relationsOf f)
    (hs : t'.sourcesOf f = t.sourcesOf f) (hc : t'.capabilitiesOf f = t.capabilitiesOf f) :
    t'.CarriesRun f run where
  relations := by
    rw [hr]
    exact h.relations
  sources := by
    rw [hs]
    exact h.sources
  capabilities := by
    rw [hc]
    exact h.capabilities

section Steps

variable {T : Territory} {w w' : World}

/-- A step in which one process moves on, and ready rows stay as they are. -/
theorem Generations.move (h : Generations T w) {p : Nat} {phase : Phase}
    (hphase : w'.phase = Function.update w.phase p phase) (hsound : Sound T w'.db.toTables)
    (hentered : ∀ target, phase = .entered target → target.Named)
    (hanalysing : ∀ target d, phase = .analysing target d → target.Named)
    (hclaim : ∀ d, phase.claim = some d → d.runId ∉ w.db.runIds)
    (hready : ∀ m ∈ w'.db.materializations, m.status = .structureReady → m ∈ w.db.materializations)
    (hrun : ∀ m ∈ w'.db.materializations, m.analysisRunId = none ∨
      ∃ m₀ ∈ w.db.materializations, m.analysisRunId = m₀.analysisRunId)
    (hrows : ∀ f, w'.db.relationsOf f = w.db.relationsOf f ∧
      w'.db.sourcesOf f = w.db.sourcesOf f ∧ w'.db.capabilitiesOf f = w.db.capabilitiesOf f) :
    Generations T w' where
  sound := hsound
  entered q target hq := by
    rw [hphase] at hq
    by_cases hqp : q = p
    · rw [hqp, Function.update_self] at hq
      exact hentered target hq
    · rw [Function.update_of_ne hqp] at hq
      exact h.entered q target hq
  analysing q target d hq := by
    rw [hphase] at hq
    by_cases hqp : q = p
    · rw [hqp, Function.update_self] at hq
      exact hanalysing target d hq
    · rw [Function.update_of_ne hqp] at hq
      exact h.analysing q target d hq
  carried m hm hs := by
    obtain ⟨h1, h2, h3⟩ := hrows m.functionId
    exact (h.carried m (hready m hm hs) hs).of_same h1 h2 h3
  unrecorded q d hq m hm hrec := by
    rw [hphase] at hq
    rcases hrun m hm with hnone | ⟨m₀, hm₀, heq⟩
    · rw [hnone] at hrec
      cases hrec
    · rw [heq] at hrec
      by_cases hqp : q = p
      · rw [hqp, Function.update_self] at hq
        have href := (w.db.constraints.materializationRefs m₀ hm₀).2.2
        rw [hrec, refers_some] at href
        exact hclaim d hq href
      · rw [Function.update_of_ne hqp] at hq
        exact h.unrecorded q d hq m₀ hm₀ hrec

/-- Tables that agree where a snapshot is read. -/
theorem sameRows_of_eq {t t' : Tables} (he : t'.entities = t.entities)
    (hr : t'.relations = t.relations) (hs : t'.sourceLocations = t.sourceLocations)
    (hc : t'.capabilities = t.capabilities) (f : String) :
    t'.relationsOf f = t.relationsOf f ∧ t'.sourcesOf f = t.sourcesOf f ∧
      t'.capabilitiesOf f = t.capabilitiesOf f := by
  unfold Tables.relationsOf Tables.sourcesOf Tables.capabilitiesOf Tables.owned
  rw [he, hr, hs, hc]
  exact ⟨rfl, rfl, rfl⟩

/-- An update that keeps ids and owners keeps what a function owns. -/
theorem owned_updateWhere {t t' : Tables} {c : Entity → Bool} {g : Entity → Entity}
    (he : t'.entities = updateWhere c g t.entities)
    (hg : ∀ e, (g e).id = e.id ∧ (g e).functionId = e.functionId) (f : String) :
    t'.owned f = t.owned f := by
  have hcol : ∀ e, (if c e then g e else e).id = e.id ∧
      (if c e then g e else e).functionId = e.functionId := by
    intro e
    split
    · exact hg e
    · exact ⟨rfl, rfl⟩
  unfold Tables.owned
  rw [he, updateWhere_eq_map, List.filter_map, List.map_map]
  have hfilter : t.entities.filter ((fun e : Entity => decide (e.functionId = some f)) ∘
      fun e => if c e then g e else e) = t.entities.filter fun e => e.functionId = some f := by
    refine List.filter_congr fun e _ => ?_
    simp only [Function.comp, (hcol e).2]
  rw [hfilter]
  exact List.map_congr_left fun e _ => (hcol e).1

/-- A catalog gives no entity another owner. -/
theorem owned_upsertFunction {row : Entity} (hrow : row.functionId = none) (t : Tables) (f : String) :
    ((Statement.upsertFunction row).effect t).owned f = t.owned f := by
  by_cases hl : (lookup Entity.localPair (Entity.localPair row) t.entities).isSome
  · have he : ((Statement.upsertFunction row).effect t).entities = updateWhere
        (fun e => Entity.localPair e = Entity.localPair row) (Entity.recatalog row) t.entities :=
      if_pos hl
    exact owned_updateWhere he (fun _ => ⟨rfl, rfl⟩) f
  · have he : ((Statement.upsertFunction row).effect t).entities = t.entities ++ [row] := if_neg hl
    unfold Tables.owned
    rw [he, List.filter_append]
    simp [hrow]

theorem owned_markEntity (state : EntityState) (id : String) (t : Tables) (f : String) :
    ((Statement.markEntity state id).effect t).owned f = t.owned f := by
  have he : ((Statement.markEntity state id).effect t).entities = updateWhere (·.id = id)
      (fun e => { e with materialization := state }) t.entities := rfl
  exact owned_updateWhere he (fun _ => ⟨rfl, rfl⟩) f

/-- A catalog leaves every snapshot. -/
theorem publishCatalog_rows {io : Faults} {a : Artifact} {run : String} {module : ModuleRecord}
    {records : List Record} {endedAt : Time} {db db' : Database}
    (h : publishCatalog io a run module records endedAt db = .ok db') (f : String) :
    db'.relationsOf f = db.relationsOf f ∧ db'.sourcesOf f = db.sourcesOf f ∧
      db'.capabilitiesOf f = db.capabilitiesOf f := by
  have hframe : ∀ {α : Type} (g : Tables → α),
      (∀ module c id t, g (Statement.effect (.publishArtifact module c id) t) = g t) →
      (∀ row : Entity, row.functionId = none → ∀ t, g (Statement.effect (.upsertFunction row) t) =
        g t) →
      (∀ row t, g (Statement.effect (.upsertMaterialization row) t) = g t) →
      (∀ s id t, g (Statement.effect (.markEntity s id) t) = g t) →
      (∀ id s e m t, g (Statement.effect (.endRun id s e m) t) = g t) →
      g db'.toTables = g db.toTables := by
    intro α g h1 h2 h3 h4 h5
    rw [transaction_ok h]
    refine effects_frame g (fun s hs t => ?_) _
    unfold publishCatalogStatements at hs
    rw [List.mem_append, List.mem_append, List.mem_singleton, List.mem_singleton] at hs
    rcases hs with (rfl | hs) | rfl
    · exact h1 _ _ _ t
    · obtain ⟨r, _, hs⟩ := List.mem_flatMap.mp hs
      simp only [FunctionRecord.statements, List.mem_cons, List.not_mem_nil, or_false] at hs
      rcases hs with rfl | rfl | rfl
      · exact h2 _ rfl t
      · exact h3 _ t
      · exact h4 _ _ t
    · exact h5 _ _ _ _ t
  have hr : db'.relations = db.relations := hframe Tables.relations (fun _ _ _ _ => rfl)
    (fun _ _ _ => rfl) (fun _ _ => rfl) (fun _ _ _ => rfl) fun _ _ _ _ _ => rfl
  have hs : db'.sourceLocations = db.sourceLocations := hframe Tables.sourceLocations
    (fun _ _ _ _ => rfl) (fun _ _ _ => rfl) (fun _ _ => rfl) (fun _ _ _ => rfl)
    fun _ _ _ _ _ => rfl
  have hc : db'.capabilities = db.capabilities := hframe Tables.capabilities (fun _ _ _ _ => rfl)
    (fun _ _ _ => rfl) (fun _ _ => rfl) (fun _ _ _ => rfl) fun _ _ _ _ _ => rfl
  have ho : db'.owned f = db.owned f := hframe (fun t => t.owned f) (fun _ _ _ _ => rfl)
    (fun row hrow t => owned_upsertFunction hrow t f) (fun _ _ => rfl)
    (fun state id t => owned_markEntity state id t f) fun _ _ _ _ _ => rfl
  unfold Tables.relationsOf Tables.sourcesOf Tables.capabilitiesOf
  rw [hr, hs, hc, ho]
  exact ⟨rfl, rfl, rfl⟩

/-- The row a process holds, and the rows of a publish under that claim. -/
theorem Generations.publish (h : Generations T w) (hg : Grounded w) {p : Nat} {target : Target}
    {d : ClaimDraw} {io : Faults} {draw : PublishDraw} {records : List Record} {db' : Database}
    (hp : w.phase p = .analysing target d) (hheld : w.HoldsFunction p)
    (ho : (Publish.of target d.runId d.owner draw records).Own T)
    (he : (Publish.of target d.runId d.owner draw records).exec io w.db = .ok db') :
    Generations T { w.move p .idle with db := db' } := by
  have hstores : w.db.Stores target.artifact := hg.stores p _ (by rw [hp]; rfl)
  obtain ⟨hfits, hres, ht⟩ := Publish.exec_published h.sound hstores (h.analysing p target d hp) ho he
  have hrep := hfits.snapshotReplaced hres
  rw [← ht] at hrep
  have hmats : db'.materializations = _ :=
    congrArg Tables.materializations (ht.trans (hfits.published_eq hres))
  obtain ⟨m₀, hm₀, hf₀, ho₀⟩ := hheld target d hp
  have hkey := hg.rooted.keyed w.db.constraints
  -- the row of the function is the held one; every other row is as it was
  have hrow : ∀ m ∈ db'.materializations, m = Materialization.published d.runId m₀ ∨
      (m ∈ w.db.materializations ∧ m.functionId ≠ target.handle) := by
    intro m hm
    rw [hmats] at hm
    obtain ⟨m₁, hm₁, hrow⟩ := mem_updateWhere.mp hm
    by_cases hf : m₁.functionId = target.handle
    · obtain rfl := List.inj_on_of_nodup_map hkey hm₁ hm₀ (hf.trans hf₀.symm)
      have hcond : (decide (m₁.functionId = target.handle) &&
          decide (m₁.claimOwner = some d.owner)) = true := by
        rw [decide_eq_true hf, decide_eq_true ho₀]
        rfl
      exact Or.inl (hrow.trans (if_pos hcond))
    · have hcond : ¬ (decide (m₁.functionId = target.handle) &&
          decide (m₁.claimOwner = some d.owner)) = true := by
        simp [hf]
      obtain rfl : m = m₁ := hrow.trans (if_neg hcond)
      exact Or.inr ⟨hm₁, hf⟩
  have hclaim : (w.phase p).claim = some d := by
    rw [hp]
    rfl
  refine ⟨?_, fun q target' hq => ?_, fun q target' d' hq => ?_, fun m hm hs => ?_,
    fun q d' hq m hm hrec => ?_⟩
  · show Sound T db'.toTables
    rw [ht]
    exact hfits.sound_published hres
  · have hq : Function.update w.phase p .idle q = .entered target' := hq
    by_cases hqp : q = p
    · rw [hqp, Function.update_self] at hq
      cases hq
    · rw [Function.update_of_ne hqp] at hq
      exact h.entered q target' hq
  · have hq : Function.update w.phase p .idle q = .analysing target' d' := hq
    by_cases hqp : q = p
    · rw [hqp, Function.update_self] at hq
      cases hq
    · rw [Function.update_of_ne hqp] at hq
      exact h.analysing q target' d' hq
  · rcases hrow m hm with rfl | ⟨hm, hne⟩
    · -- the function published: the rows of the stream carry its run
      have hf : (Materialization.published d.runId m₀).functionId = target.handle := hf₀
      rw [hf]
      refine ⟨fun r hr => ?_, fun s hs => ?_, fun c hc => ?_⟩
      · have hr : r ∈ db'.relationsOf target.handle := hr
        rw [show db'.relationsOf target.handle = _ from hrep.relations] at hr
        obtain ⟨q, _, rfl⟩ := List.mem_map.mp hr
        rfl
      · have hs : s ∈ db'.sourcesOf target.handle := hs
        rw [show db'.sourcesOf target.handle = _ from hrep.sources] at hs
        obtain ⟨q, _, rfl⟩ := List.mem_map.mp hs
        rfl
      · have hc : c ∈ db'.capabilitiesOf target.handle := hc
        rw [show db'.capabilitiesOf target.handle = _ from hrep.capabilities] at hc
        obtain ⟨q, _, rfl⟩ := List.mem_map.mp hc
        rfl
    · have hother := hrep.others m.functionId hne
      exact (h.carried m hm hs).of_same hother.relations hother.sources hother.capabilities
  · have hq : (Function.update w.phase p .idle q).claim = some d' := hq
    by_cases hqp : q = p
    · rw [hqp, Function.update_self] at hq
      cases hq
    · rw [Function.update_of_ne hqp] at hq
      rcases hrow m hm with rfl | ⟨hm, _⟩
      · have hrun : d.runId = d'.runId := Option.some.inj hrec
        exact hqp (hg.distinct q p d' d hq hclaim (Or.inr hrun.symm))
      · exact h.unrecorded q d' hq m hm hrec

/-- An update that leaves no row ready, and no run behind, makes no row ready and no run new. -/
theorem ready_updateWhere {c : Materialization → Bool} {g : Materialization → Materialization}
    {ms ms' : List Materialization} (hms : ms' = updateWhere c g ms)
    (hg : ∀ m, (g m).status ≠ .structureReady) (hrun : ∀ m, (g m).analysisRunId = m.analysisRunId) :
    (∀ m ∈ ms', m.status = .structureReady → m ∈ ms) ∧
      ∀ m ∈ ms', m.analysisRunId = none ∨ ∃ m₀ ∈ ms, m.analysisRunId = m₀.analysisRunId := by
  subst hms
  refine ⟨fun m hm hst => ?_, fun m hm => ?_⟩
  · obtain ⟨m₀, hm₀, rfl⟩ := mem_updateWhere.mp hm
    split at hst
    · exact absurd hst (hg m₀)
    · rename_i hc
      rw [if_neg hc]
      exact hm₀
  · obtain ⟨m₀, hm₀, rfl⟩ := mem_updateWhere.mp hm
    refine Or.inr ⟨m₀, hm₀, ?_⟩
    split
    · exact hrun m₀
    · rfl

/-- Nor does a catalog. -/
theorem ready_catalogued (a : Artifact) (records : List Record) (ms : List Materialization) :
    (∀ m ∈ upsertAll Materialization.pair Materialization.recatalog (materializationRows a records) ms,
      m.status = .structureReady → m ∈ ms) ∧
      ∀ m ∈ upsertAll Materialization.pair Materialization.recatalog (materializationRows a records) ms,
        m.analysisRunId = none ∨ ∃ m₀ ∈ ms, m.analysisRunId = m₀.analysisRunId := by
  refine ⟨fun m hm hst => ?_, ?_⟩
  · have hkeep : ∀ n m, Materialization.pair (Materialization.recatalog n m) =
        Materialization.pair m := fun _ _ => rfl
    have hnew : ∀ new ∈ materializationRows a records, new.status ≠ .structureReady := by
      intro new hnew
      obtain ⟨f, _, rfl⟩ := List.mem_map.mp hnew
      unfold FunctionRecord.materializationRow
      dsimp only
      split
      · decide
      · decide
    rcases of_mem_upsertAll hkeep hm with ⟨hm, _⟩ | ⟨new, hmem, _, hrow⟩
    · exact hm
    · rcases hrow with rfl | ⟨m₀, _, rfl⟩
      · exact absurd hst (hnew m hmem)
      · exact absurd hst (hnew new hmem)
  · have hkeep : ∀ new ∈ materializationRows a records, ∀ m : Materialization,
        (m.analysisRunId = none ∨ ∃ m₀ ∈ ms, m.analysisRunId = m₀.analysisRunId) →
        (Materialization.recatalog new m).analysisRunId = none ∨
          ∃ m₀ ∈ ms, (Materialization.recatalog new m).analysisRunId = m₀.analysisRunId :=
      fun _ _ _ h => h
    refine forall_upsertAll (P := fun m : Materialization => m.analysisRunId = none ∨
      ∃ m₀ ∈ ms, m.analysisRunId = m₀.analysisRunId)
      (fun m hm => Or.inr ⟨m, hm, rfl⟩) (fun new hnew => ?_) hkeep
    obtain ⟨f, _, rfl⟩ := List.mem_map.mp hnew
    exact Or.inl rfl

/-- **One step keeps the generations apart.** -/
theorem Generations.step {l : Label} (h : Generations T w) (hg : Grounded w)
    (hs : World.Step w l w') (hheld : publishesHeld w l) (hstream : streamsIn T w l) :
    Generations T w' := by
  -- a process moves on, and the database is as it was
  have hstill : ∀ {p : Nat} {phase : Phase}, (∀ target, phase = .entered target → target.Named) →
      (∀ target d, phase ≠ .analysing target d) → phase.claim = none →
      Generations T (w.move p phase) := by
    intro p phase hent hno hclaim
    refine h.move rfl h.sound hent (fun target d ht => absurd ht (hno target d)) ?_
      (fun m hm _ => hm) (fun m hm => Or.inr ⟨m, hm, rfl⟩) fun f => ⟨rfl, rfl, rfl⟩
    intro d hd
    rw [hclaim] at hd
    cases hd
  -- the tables change, no process moves, and no row of a function does
  have htables : ∀ {db' : Database}, Sound T db'.toTables →
      db'.materializations = w.db.materializations → db'.entities = w.db.entities →
      db'.relations = w.db.relations → db'.sourceLocations = w.db.sourceLocations →
      db'.capabilities = w.db.capabilities → Generations T { w with db := db' } := by
    intro db' hsound hm he hr hsrc hc
    refine ⟨hsound, h.entered, h.analysing, fun m hmem hst => ?_, fun p d hp m hmem => ?_⟩
    · have hmem : m ∈ db'.materializations := hmem
      rw [hm] at hmem
      obtain ⟨h1, h2, h3⟩ := sameRows_of_eq he hr hsrc hc m.functionId
      exact (h.carried m hmem hst).of_same h1 h2 h3
    · have hmem : m ∈ db'.materializations := hmem
      rw [hm] at hmem
      exact h.unrecorded p d hp m hmem
  cases hs with
  | tick _ => exact ⟨h.sound, h.entered, h.analysing, h.carried, h.unrecorded⟩
  | @init row db' _ ht =>
    refine htables ?_ (by rw [ht]) (by rw [ht]) (by rw [ht]) (by rw [ht]) (by rw [ht])
    exact h.sound.sameRows (by rw [ht]) (by rw [ht]) (by rw [ht]) (by rw [ht])
  | @store io a db' ha _ he =>
    have ht := exec_ok he
    refine htables ?_ (by rw [ht]; rfl) (by rw [ht]; rfl) (by rw [ht]; rfl) (by rw [ht]; rfl)
      (by rw [ht]; rfl)
    rw [ht]
    exact h.sound.insertArtifact ha
  | @mark io s db' hm he =>
    have ht := exec_ok he
    obtain ⟨id, rfl | rfl⟩ := hm
    · refine htables ?_ (by rw [ht]; rfl) (by rw [ht]; rfl) (by rw [ht]; rfl) (by rw [ht]; rfl)
        (by rw [ht]; rfl)
      rw [ht]
      exact h.sound.updateArtifacts (g := fun a => { a with requestedIndexLevel := .full })
        (fun _ => ⟨rfl, rfl⟩) rfl rfl rfl rfl
    · refine htables ?_ (by rw [ht]; rfl) (by rw [ht]; rfl) (by rw [ht]; rfl) (by rw [ht]; rfl)
        (by rw [ht]; rfl)
      rw [ht]
      exact h.sound.updateArtifacts (g := fun a => { a with completedIndexLevel := .full })
        (fun _ => ⟨rfl, rfl⟩) rfl rfl rfl rfl
  | @enter p handle refresh target hp hent =>
    refine hstill (fun target' ht => ?_) (fun _ _ => Phase.noConfusion) rfl
    cases ht
    exact (h.sound.enter w.db.constraints hent).2
  | @claim p io d target db' hp hd hc =>
    obtain ⟨_, _, _, hnew, ht⟩ := claimFunction_ok hc
    have hmats : db'.materializations = _ := congrArg Tables.materializations ht
    obtain ⟨hready, hruns⟩ := ready_updateWhere hmats (fun _ => Status.noConfusion) fun _ => rfl
    refine h.move rfl (h.sound.claimFunction rfl hc) (fun _ => Phase.noConfusion)
      (fun target' d' he => ?_) (fun d' hd' => ?_) hready hruns
      (sameRows_of_eq (by rw [ht]) (by rw [ht]) (by rw [ht]) (by rw [ht]))
    · cases he
      exact h.entered p target hp
    · cases hd'
      exact hnew
  | @publish p io d target draw records db' hp he =>
    exact h.publish hg hp hheld (hstream target d draw hp) he
  | @fail p io d target message endedAt db' hp he =>
    have ht := failFunction_ok he
    have hmats : db'.materializations = _ := congrArg Tables.materializations ht
    obtain ⟨hready, hruns⟩ := ready_updateWhere hmats (fun _ => Status.noConfusion) fun _ => rfl
    exact h.move rfl (h.sound.failFunction rfl he) (fun _ => Phase.noConfusion)
      (fun _ _ => Phase.noConfusion) (fun d' hd' => by cases hd') hready hruns
      (sameRows_of_eq (by rw [ht]) (by rw [ht]) (by rw [ht]) (by rw [ht]))
  | ingest _ _ => exact hstill (fun _ => Phase.noConfusion) (fun _ _ => Phase.noConfusion) rfl
  | @claimCatalog p io d a index db' hp hd hc =>
    obtain ⟨_, _, _, hnew, ht⟩ := claimCatalog_ok hc
    have hmats : db'.materializations = w.db.materializations := by rw [ht]
    refine h.move rfl (h.sound.claimCatalog rfl hc) (fun _ => Phase.noConfusion)
      (fun _ _ => Phase.noConfusion) (fun d' hd' => ?_) (fun m hm _ => ?_) (fun m hm => ?_)
      (sameRows_of_eq (by rw [ht]) (by rw [ht]) (by rw [ht]) (by rw [ht]))
    · cases hd'
      exact hnew
    · rw [← hmats]
      exact hm
    · refine Or.inr ⟨m, ?_, rfl⟩
      rw [← hmats]
      exact hm
  | @publishCatalog p io d a module records endedAt db' hp he =>
    obtain ⟨_, _, hmats⟩ := publishCatalog_claims he
    have hstores : w.db.Stores a := hg.stores p a (by rw [hp]; rfl)
    have hsound : Sound T db'.toTables := by
      rw [transaction_ok he]
      exact h.sound.publishCatalog hstores _ _ _ _
    obtain ⟨hready, hruns⟩ := ready_catalogued a records w.db.materializations
    rw [← hmats] at hready hruns
    exact h.move rfl hsound (fun _ => Phase.noConfusion) (fun _ _ => Phase.noConfusion)
      (fun d' hd' => by cases hd') hready hruns (publishCatalog_rows he)
  | @failCatalog p io d a message endedAt db' hp he =>
    have ht := failCatalog_ok he
    have hmats : db'.materializations = w.db.materializations := by rw [ht]
    refine h.move rfl (h.sound.failCatalog rfl he) (fun _ => Phase.noConfusion)
      (fun _ _ => Phase.noConfusion) (fun d' hd' => by cases hd') (fun m hm _ => ?_)
      (fun m hm => ?_) (sameRows_of_eq (by rw [ht]) (by rw [ht]) (by rw [ht]) (by rw [ht]))
    · rw [← hmats]
      exact hm
    · refine Or.inr ⟨m, ?_, rfl⟩
      rw [← hmats]
      exact hm
  | leave => exact hstill (fun _ => Phase.noConfusion) (fun _ _ => Phase.noConfusion) rfl

theorem World.Initial.generations (h : w.Initial) : Generations T w where
  sound :=
    { artifacts := by
        rw [h.artifacts]
        exact fun a ha => absurd ha List.not_mem_nil
      entities := by
        rw [h.entities]
        exact fun e he => absurd he List.not_mem_nil
      relations := by
        rw [h.relations]
        exact fun r hr => absurd hr List.not_mem_nil
      sources := by
        rw [h.sources]
        exact fun s hs => absurd hs List.not_mem_nil }
  entered p target hp := by
    rw [h.idle p] at hp
    cases hp
  analysing p target d hp := by
    rw [h.idle p] at hp
    cases hp
  carried m hm := by
    rw [h.materializations] at hm
    exact absurd hm List.not_mem_nil
  unrecorded p d hp := by
    rw [h.idle p] at hp
    cases hp

/-- **Generations stay apart in every run** whose publishes hold their claim and keep to a
    territory. -/
theorem Runs.generations (h : Runs (fun w l => publishesHeld w l ∧ streamsIn T w l) w) :
    Generations T w := by
  have hboth : Grounded w ∧ Generations T w :=
    h.invariant (I := fun w => Grounded w ∧ Generations T w)
      (fun w₀ h₀ => ⟨h₀.grounded, h₀.generations⟩)
      fun hI hs hC => ⟨hI.1.step hs, hI.2.step hI.1 hs hC.1 hC.2⟩
  exact hboth.2

theorem streamsIn_of_analyses {key : String} {l : Label} (h : analyses key w l) :
    streamsIn (.only key) w l := by
  cases l with
  | publish p records =>
    intro target d draw hp
    obtain ⟨hk, pd, M, rfl⟩ := h target d hp
    exact functionGraph_own_only hk pd M d.runId d.owner draw
  | _ => trivial

/-! ## 4. A claim that is lost -/

end Steps

/-- No row of a snapshot carries the run, and no row of `materializations` records it. -/
structure Tables.Without (t : Tables) (run : String) : Prop where
  relations : ∀ r ∈ t.relations, r.analysisRunId ≠ some run
  sources : ∀ s ∈ t.sourceLocations, s.analysisRunId ≠ some run
  capabilities : ∀ c ∈ t.capabilities, c.analysisRunId ≠ run
  materializations : ∀ m ∈ t.materializations, m.analysisRunId ≠ some run

/-- No row of the function names the owner. -/
def Tables.Disowned (t : Tables) (f owner : String) : Prop :=
  ∀ m ∈ t.materializations, m.functionId = f → m.claimOwner ≠ some owner

/-- The statement writes no row under the run. -/
def Statement.Avoids (run : String) : Statement → Prop
  | .insertRelation row => row.analysisRunId ≠ some run
  | .insertSourceLocation row => row.analysisRunId ≠ some run
  | .insertCapability row => row.analysisRunId ≠ run
  | .upsertMaterialization row => row.analysisRunId ≠ some run
  | .publishFunction r _ _ => r ≠ run
  | _ => True

/-- The statement gives no row to the owner. -/
def Statement.Disowns (owner : String) : Statement → Prop
  | .upsertMaterialization row => row.claimOwner = none
  | .claimFunction o _ _ _ => o ≠ owner
  | _ => True

section Lost

variable {t : Tables} {run f owner : String}

theorem Tables.Without.effect (h : t.Without run) {s : Statement} (hs : s.Avoids run) :
    (s.effect t).Without run := by
  -- an update that keeps the column, or writes another run there
  have hupdate : ∀ {c : Materialization → Bool} {g : Materialization → Materialization},
      (∀ m, (g m).analysisRunId = m.analysisRunId ∨ (g m).analysisRunId ≠ some run) →
      ∀ m ∈ updateWhere c g t.materializations, m.analysisRunId ≠ some run := by
    intro c g hg m hm
    obtain ⟨m₀, hm₀, rfl⟩ := mem_updateWhere.mp hm
    split
    · rcases hg m₀ with hsame | hother
      · rw [hsame]
        exact h.materializations m₀ hm₀
      · exact hother
    · exact h.materializations m₀ hm₀
  cases s with
  | insertRelation row =>
    refine { h with relations := fun r hr => ?_ }
    rcases List.mem_append.mp hr with hr | hr
    · exact h.relations r hr
    · rw [List.mem_singleton.mp hr]
      exact hs
  | insertSourceLocation row =>
    refine { h with sources := fun r hr => ?_ }
    rcases List.mem_append.mp hr with hr | hr
    · exact h.sources r hr
    · rw [List.mem_singleton.mp hr]
      exact hs
  | insertCapability row =>
    refine { h with capabilities := fun r hr => ?_ }
    rcases List.mem_append.mp hr with hr | hr
    · exact h.capabilities r hr
    · rw [List.mem_singleton.mp hr]
      exact hs
  | deleteRelations =>
    exact { h with relations := fun r hr => h.relations r (mem_deleteWhere.mp hr).1 }
  | deleteSourceLocations =>
    exact { h with sources := fun r hr => h.sources r (mem_deleteWhere.mp hr).1 }
  | deleteCapabilities =>
    exact { h with capabilities := fun r hr => h.capabilities r (mem_deleteWhere.mp hr).1 }
  | claimFunction | failFunction =>
    exact { h with materializations := hupdate fun _ => Or.inl rfl }
  | publishFunction r f o =>
    refine { h with materializations := hupdate fun _ => Or.inr fun he => ?_ }
    exact hs (Option.some.inj he)
  | upsertMaterialization row =>
    refine { h with materializations := fun m hm => ?_ }
    have hm : m ∈ upsertAll Materialization.pair Materialization.recatalog [row]
        t.materializations := hm
    have hkeep : ∀ new ∈ [row], ∀ m : Materialization, m.analysisRunId ≠ some run →
        (Materialization.recatalog new m).analysisRunId ≠ some run := fun _ _ _ h => h
    refine forall_upsertAll (P := fun m : Materialization => m.analysisRunId ≠ some run)
      h.materializations (fun new hnew => ?_) hkeep m hm
    rw [List.mem_singleton.mp hnew]
    exact hs
  | _ => exact ⟨h.relations, h.sources, h.capabilities, h.materializations⟩

theorem Tables.Disowned.effect (h : t.Disowned f owner) {s : Statement} (hs : s.Disowns owner) :
    (s.effect t).Disowned f owner := by
  -- an update that keeps the function, and gives the row to somebody else
  have hupdate : ∀ {c : Materialization → Bool} {g : Materialization → Materialization},
      (∀ m, (g m).claimOwner ≠ some owner) →
      ∀ m ∈ updateWhere c g t.materializations, m.functionId = f → m.claimOwner ≠ some owner := by
    intro c g hg m hm hf
    obtain ⟨m₀, hm₀, hrow⟩ := mem_updateWhere.mp hm
    split at hrow
    · rw [hrow]
      exact hg m₀
    · rw [hrow] at hf ⊢
      exact h m₀ hm₀ hf
  cases s with
  | claimFunction o startedAt now id => exact hupdate fun _ he => hs (Option.some.inj he)
  | failFunction | publishFunction => exact hupdate fun _ => (Option.some_ne_none owner).symm
  | upsertMaterialization row =>
    intro m hm
    have hm : m ∈ upsertAll Materialization.pair Materialization.recatalog [row]
        t.materializations := hm
    have hkeep : ∀ new ∈ [row], ∀ m : Materialization, (m.functionId = f →
        m.claimOwner ≠ some owner) → (Materialization.recatalog new m).functionId = f →
        (Materialization.recatalog new m).claimOwner ≠ some owner :=
      fun _ _ _ _ _ => (Option.some_ne_none owner).symm
    refine forall_upsertAll (P := fun m : Materialization => m.functionId = f →
      m.claimOwner ≠ some owner) h (fun new hnew _ => ?_) hkeep m hm
    rw [List.mem_singleton.mp hnew, hs]
    exact (Option.some_ne_none owner).symm
  | _ => exact h

/-- A run that nobody has started has no rows. -/
theorem Tables.Constraints.without (h : t.Constraints) (hrun : run ∉ t.runIds) : t.Without run where
  relations r hr he := by
    have href := (h.relationRefs r hr).2.2.2
    rw [he, refers_some] at href
    exact hrun href
  sources s hs he := by
    have href := (h.sourceRefs s hs).2.2
    rw [he, refers_some] at href
    exact hrun href
  capabilities c hc he := by
    have href := (h.capabilityRefs c hc).2
    rw [he] at href
    exact hrun href
  materializations m hm he := by
    have href := (h.materializationRefs m hm).2.2
    rw [he, refers_some] at href
    exact hrun href

variable {w w' : World}

/-- **What a step writes**: rows under the run of the process that publishes, and a claim
    under a uuid that nobody has drawn. -/
theorem World.Step.statements {l : Label} (hs : World.Step w l w') :
    ∃ investigations ss,
      w'.db.toTables = effects ss { w.db.toTables with investigations := investigations } ∧
      (∀ run, (∀ p records target d, l = .publish p records → w.phase p = .analysing target d →
        d.runId ≠ run) → ∀ s ∈ ss, s.Avoids run) ∧
      ∀ owner ∈ w.issued, ∀ s ∈ ss, s.Disowns owner := by
  cases hs with
  | @init row db' _ ht =>
    exact ⟨[row], [], ht, fun _ _ s hs => absurd hs List.not_mem_nil,
      fun _ _ s hs => absurd hs List.not_mem_nil⟩
  | @store io a db' ha _ he =>
    exact ⟨_, [.insertArtifact a], exec_ok he, fun _ _ => List.forall_mem_singleton.mpr trivial,
      fun _ _ => List.forall_mem_singleton.mpr trivial⟩
  | @mark io s db' hm he =>
    refine ⟨_, [s], exec_ok he, fun _ _ => List.forall_mem_singleton.mpr ?_,
      fun _ _ => List.forall_mem_singleton.mpr ?_⟩
    · obtain ⟨id, rfl | rfl⟩ := hm
      · trivial
      · trivial
    · obtain ⟨id, rfl | rfl⟩ := hm
      · trivial
      · trivial
  | @claim p io d target db' hp hd hc =>
    obtain ⟨run, _, ht⟩ := claimFunction_effects hc
    refine ⟨_, _, ht, fun _ _ => List.forall_mem_cons.mpr ⟨trivial,
      List.forall_mem_singleton.mpr trivial⟩, fun owner ho => List.forall_mem_cons.mpr ⟨?_,
      List.forall_mem_singleton.mpr trivial⟩⟩
    rintro rfl
    exact hd.fresh ho
  | @publish p io d target draw records db' hp he =>
    obtain ⟨_, _, _, _, _, ht⟩ := Publish.exec_ok he
    rw [← effects_append] at ht
    refine ⟨_, _, ht, fun run hrun => ?_, fun owner _ => ?_⟩
    · have hne : d.runId ≠ run := hrun p records target d rfl hp
      have hne' : some d.runId ≠ some run := fun he => hne (Option.some.inj he)
      exact List.forall_mem_append.mpr
        ⟨forall_replaceStatements.mpr ⟨trivial, trivial, trivial, fun _ _ => trivial⟩,
          Publish.forall_writeStatements.mpr ⟨fun _ _ _ => trivial, fun _ _ => hne',
            fun _ _ => hne', trivial, trivial, fun _ _ => hne, hne, trivial⟩⟩
    · exact List.forall_mem_append.mpr
        ⟨forall_replaceStatements.mpr ⟨trivial, trivial, trivial, fun _ _ => trivial⟩,
          Publish.forall_writeStatements.mpr ⟨fun _ _ _ => trivial, fun _ _ => trivial,
            fun _ _ => trivial, trivial, trivial, fun _ _ => trivial, trivial, trivial⟩⟩
  | @fail p io d target message endedAt db' hp he =>
    exact ⟨_, _, transaction_ok he, fun _ _ => forall_failFunctionStatements.mpr ⟨trivial, trivial⟩,
      fun _ _ => forall_failFunctionStatements.mpr ⟨trivial, trivial⟩⟩
  | @claimCatalog p io d a index db' hp hd hc =>
    obtain ⟨run, _, ht⟩ := claimCatalog_effects hc
    exact ⟨_, _, ht, fun _ _ => List.forall_mem_cons.mpr ⟨trivial, List.forall_mem_cons.mpr
      ⟨trivial, List.forall_mem_singleton.mpr trivial⟩⟩, fun _ _ => List.forall_mem_cons.mpr
      ⟨trivial, List.forall_mem_cons.mpr ⟨trivial, List.forall_mem_singleton.mpr trivial⟩⟩⟩
  | @publishCatalog p io d a module records endedAt db' hp he =>
    exact ⟨_, _, transaction_ok he, fun run _ => forall_publishCatalogStatements.mpr
      ⟨trivial, fun f _ => ⟨trivial, (Option.some_ne_none run).symm, trivial⟩, trivial⟩,
      fun _ _ => forall_publishCatalogStatements.mpr
        ⟨trivial, fun f _ => ⟨trivial, rfl, trivial⟩, trivial⟩⟩
  | @failCatalog p io d a message endedAt db' hp he =>
    exact ⟨_, _, transaction_ok he, fun _ _ => forall_failCatalogStatements.mpr ⟨trivial, trivial⟩,
      fun _ _ => forall_failCatalogStatements.mpr ⟨trivial, trivial⟩⟩
  | _ =>
    exact ⟨_, [], rfl, fun _ _ s hs => absurd hs List.not_mem_nil,
      fun _ _ s hs => absurd hs List.not_mem_nil⟩

theorem World.Step.without {l : Label} (hs : World.Step w l w') (h : w.db.Without run)
    (hrun : ∀ p records target d, l = .publish p records → w.phase p = .analysing target d →
      d.runId ≠ run) : w'.db.Without run := by
  obtain ⟨inv, ss, ht, havoids, _⟩ := hs.statements
  rw [ht]
  have h₀ : Tables.Without { w.db.toTables with investigations := inv } run :=
    ⟨h.relations, h.sources, h.capabilities, h.materializations⟩
  exact effects_invariant (I := fun t => t.Without run) h₀ fun s hs t ht =>
    ht.effect (havoids run hrun s hs)

theorem World.Step.disowned {l : Label} (hs : World.Step w l w') (h : w.db.Disowned f owner)
    (howner : owner ∈ w.issued) : w'.db.Disowned f owner := by
  obtain ⟨inv, ss, ht, _, hdisowns⟩ := hs.statements
  rw [ht]
  have h₀ : Tables.Disowned { w.db.toTables with investigations := inv } f owner := h
  exact effects_invariant (I := fun t => t.Disowned f owner) h₀ fun s hs t ht =>
    ht.effect (hdisowns owner howner s hs)

/-- After a step a process is where it was, or has no claim, or a new one. -/
theorem World.Step.claim_phase {l : Label} (hs : World.Step w l w') (q : Nat) {d : ClaimDraw}
    (hq : (w'.phase q).claim = some d) : w'.phase q = w.phase q ∨ d.runId ∉ w.db.runIds := by
  have hmove : ∀ {p : Nat} {phase : Phase}, w'.phase = Function.update w.phase p phase →
      (∀ d, phase.claim = some d → d.runId ∉ w.db.runIds) →
      w'.phase q = w.phase q ∨ d.runId ∉ w.db.runIds := by
    intro p phase hphase hnew
    rw [hphase] at hq ⊢
    by_cases hqp : q = p
    · rw [hqp, Function.update_self] at hq
      exact Or.inr (hnew d hq)
    · exact Or.inl (Function.update_of_ne hqp ..)
  have hnone : ∀ {phase : Phase}, phase.claim = none →
      ∀ d, phase.claim = some d → d.runId ∉ w.db.runIds := by
    intro phase hnone d hd
    rw [hnone] at hd
    cases hd
  cases hs with
  | tick | init | store | mark => exact Or.inl rfl
  | claim hp hd hc =>
    obtain ⟨_, _, _, hnew, _⟩ := claimFunction_ok hc
    refine hmove rfl fun d' hd' => ?_
    cases hd'
    exact hnew
  | claimCatalog hp hd hc =>
    obtain ⟨_, _, _, hnew, _⟩ := claimCatalog_ok hc
    refine hmove rfl fun d' hd' => ?_
    cases hd'
    exact hnew
  | _ => exact hmove rfl (hnone rfl)

/-- **A run under way has no rows.** -/
theorem Runs.unwritten {C : Condition} (h : Runs C w) {p : Nat} {d : ClaimDraw}
    (hp : (w.phase p).claim = some d) : w.db.Without d.runId := by
  have hboth : Grounded w ∧ ∀ p d, (w.phase p).claim = some d → w.db.Without d.runId := by
    refine h.invariant (I := fun w => Grounded w ∧ ∀ p d, (w.phase p).claim = some d →
      w.db.Without d.runId) (fun w₀ h₀ => ⟨h₀.grounded, fun p d hp => ?_⟩) ?_
    · rw [h₀.idle p] at hp
      cases hp
    · intro w l w' hI hs _
      obtain ⟨hg, hw⟩ := hI
      refine ⟨hg.step hs, fun p d hp => ?_⟩
      rcases hs.claim_phase p hp with hsame | hnew
      · rw [hsame] at hp
        refine hs.without (hw p d hp) fun q records target d' hl hq hrun => ?_
        -- a process that publishes has nothing under way afterwards
        have hqd : (w.phase q).claim = some d' := by
          rw [hq]
          rfl
        obtain rfl := hg.distinct q p d' d hqd hp (Or.inr hrun)
        subst hl
        cases hs with
        | publish =>
          rw [move_phase] at hsame
          rw [← hsame] at hp
          cases hp
      · refine hs.without (w.db.constraints.without hnew) fun q records target d' _ hq hrun => ?_
        have hqd : (w.phase q).claim = some d' := by
          rw [hq]
          rfl
        rw [← hrun] at hnew
        exact hnew (hg.drawn q d' hqd).2
  exact hboth.2 p d hp

/-- The claim `d` on the target is lost: nobody else draws its uuid or its run, the function is
    not its own, and no row carries its run. -/
structure World.Lost (w : World) (target : Target) (d : ClaimDraw) : Prop where
  issued : d.owner ∈ w.issued
  run : d.runId ∈ w.db.runIds
  disowned : w.db.Disowned target.handle d.owner
  without : w.db.Without d.runId
  phases : ∀ q d', (w.phase q).claim = some d' → d'.runId = d.runId → w.phase q = .analysing target d

theorem Runs.lost {C : Condition} (h : Runs C w) {p : Nat} {target : Target} {d : ClaimDraw}
    (hp : w.phase p = .analysing target d) (hnot : ¬ w.HoldsFunction p) : w.Lost target d := by
  have hclaim : (w.phase p).claim = some d := by
    rw [hp]
    rfl
  obtain ⟨hissued, hrun⟩ := h.grounded.drawn p d hclaim
  refine ⟨hissued, hrun, fun m hm hf ho => hnot fun target' d' hp' => ?_, h.unwritten hclaim,
    fun q d' hq hsame => ?_⟩
  · rw [hp] at hp'
    cases hp'
    exact ⟨m, hm, hf, ho⟩
  · rw [h.grounded.distinct q p d' d hq hclaim (Or.inr hsame)]
    exact hp

theorem World.Lost.not_held {target : Target} {d : ClaimDraw} {p : Nat} (h : w.Lost target d)
    (hp : w.phase p = .analysing target d) : ¬ w.HoldsFunction p := by
  intro hheld
  obtain ⟨m, hm, hf, ho⟩ := hheld target d hp
  exact h.disowned m hm hf ho

/-- **A lost claim stays lost.** -/
theorem World.Lost.step {target : Target} {d : ClaimDraw} {l : Label} (h : w.Lost target d)
    (hs : World.Step w l w') (hheld : publishesHeld w l) : w'.Lost target d where
  issued := by
    cases hs with
    | claim | claimCatalog => exact List.mem_cons_of_mem _ h.issued
    | _ => exact h.issued
  run := by
    obtain ⟨inv, ss, ht, _, _⟩ := hs.statements
    rw [ht]
    exact runIds_effects ss h.run
  disowned := hs.disowned h.disowned h.issued
  without := by
    refine hs.without h.without fun q records target' d' hl hq hrun => ?_
    have hclaim : (w.phase q).claim = some d' := by
      rw [hq]
      rfl
    rw [hl] at hheld
    exact h.not_held (h.phases q d' hclaim hrun) hheld
  phases q d' hq hrun := by
    rcases hs.claim_phase q hq with hsame | hnew
    · rw [hsame] at hq ⊢
      exact h.phases q d' hq hrun
    · rw [hrun] at hnew
      exact absurd h.run hnew

theorem World.Lost.steps {C : Condition} (hC : ∀ w l, C w l → publishesHeld w l) {target : Target}
    {d : ClaimDraw} (h : w.Lost target d) (hrun : Relation.ReflTransGen (World.Next C) w w') :
    w'.Lost target d := by
  induction hrun with
  | refl => exact h
  | tail _ hnext ih =>
    obtain ⟨l, hs, hc⟩ := hnext
    exact ih.step hs (hC _ l hc)

end Lost

section Steps

variable {T : Territory} {w w' : World}

/-! ## 5. The claim and the row -/

/-- **A publish leaves the function ready with its own run exactly where the process holds
    the claim.** -/
theorem publish_held_iff (h : Generations T w) (hg : Grounded w) {p : Nat} {target : Target}
    {d : ClaimDraw} {io : Faults} {draw : PublishDraw} {records : List Record} {db' : Database}
    (hp : w.phase p = .analysing target d)
    (ho : (Publish.of target d.runId d.owner draw records).Own T)
    (he : (Publish.of target d.runId d.owner draw records).exec io w.db = .ok db') :
    (∃ m ∈ db'.materializations, m.functionId = target.handle ∧ m.status = .structureReady ∧
      m.analysisRunId = some d.runId) ↔ w.HoldsFunction p := by
  have hstores : w.db.Stores target.artifact := hg.stores p _ (by rw [hp]; rfl)
  obtain ⟨hfits, hres, ht⟩ := Publish.exec_published h.sound hstores (h.analysing p target d hp) ho he
  have hmats : db'.materializations = _ :=
    congrArg Tables.materializations (ht.trans (hfits.published_eq hres))
  rw [hmats]
  constructor
  · intro hm target' d' hp'
    rw [hp] at hp'
    cases hp'
    obtain ⟨m, hm, _, _, hrun⟩ := hm
    obtain ⟨m₀, hm₀, hrow⟩ := mem_updateWhere.mp hm
    by_cases hcond : (decide (m₀.functionId = target.handle) &&
        decide (m₀.claimOwner = some d.owner)) = true
    · simp only [Bool.and_eq_true, decide_eq_true_eq] at hcond
      exact ⟨m₀, hm₀, hcond.1, hcond.2⟩
    · obtain rfl : m = m₀ := hrow.trans (if_neg hcond)
      exact absurd hrun (h.unrecorded p d (by rw [hp]; rfl) m hm₀)
  · intro hheld
    obtain ⟨m₀, hm₀, hf, howner⟩ := hheld target d hp
    refine ⟨Materialization.published d.runId m₀, mem_updateWhere.mpr ⟨m₀, hm₀, ?_⟩, hf, rfl, rfl⟩
    have hcond : (decide (m₀.functionId = target.handle) &&
        decide (m₀.claimOwner = some d.owner)) = true := by
      rw [decide_eq_true hf, decide_eq_true howner]
      rfl
    exact (if_pos hcond).symm

/-- **Materialization publishes one generation at a time.** In every run of any number of
    processes that analyse a function by the adapter and publish while they hold its claim, the
    rows of a ready function carry the run its row records; a publish leaves the function ready
    with its own run exactly where it holds the claim; and a process that has lost its claim
    never holds it again, and no row ever carries its run. -/
theorem materialization_generations {key : String}
    (h : Runs (fun w l => publishesHeld w l ∧ analyses key w l) w) :
    (∀ m ∈ w.db.materializations, m.status = .structureReady →
      w.db.CarriesRun m.functionId m.analysisRunId) ∧
    (∀ p target d io draw records db', w.phase p = .analysing target d →
      analyses key w (.publish p records) →
      (Publish.of target d.runId d.owner draw records).exec io w.db = .ok db' →
      ((∃ m ∈ db'.materializations, m.functionId = target.handle ∧ m.status = .structureReady ∧
        m.analysisRunId = some d.runId) ↔ w.HoldsFunction p)) ∧
    ∀ p target d, w.phase p = .analysing target d → ¬ w.HoldsFunction p → ∀ w',
      Relation.ReflTransGen (World.Next fun w l => publishesHeld w l ∧ analyses key w l) w w' →
      w'.db.Without d.runId ∧ (w'.phase p = .analysing target d → ¬ w'.HoldsFunction p) := by
  have hgen : Generations (.only key) w :=
    Runs.generations (h.mono fun _ _ hC => ⟨hC.1, streamsIn_of_analyses hC.2⟩)
  refine ⟨hgen.carried, fun p target d io draw records db' hp hC he => ?_,
    fun p target d hp hnot w' hrun => ?_⟩
  · exact publish_held_iff hgen h.grounded hp (streamsIn_of_analyses hC target d draw hp) he
  · have hlost := (h.lost hp hnot).steps (fun _ _ hC => hC.1) hrun
    exact ⟨hlost.without, hlost.not_held⟩

end Steps

/-! ## 6. A takeover in between -/

namespace Scenario

/-- The world after the process `p` has published the stream of `f0` under its claim `d`. -/
def published (w : World) (p : Nat) (target : Target) (d : ClaimDraw) : World :=
  { w.move p .idle with
    db := after ((Publish.of target d.runId d.owner ⟨fun _ => 2, 2⟩ stream).exec noFaults w.db) }

/-- The process `1` publishes `f0`. -/
def ready : World := published claimed 1 (target catalogued.db) (Sample.claimDraw "a" "a" 1)

/-- Ten minutes pass. -/
def stale : World := { claimed with now := 700000 }

/-- The process `2` takes the claim over, and publishes. -/
def taken : World := analysing stale 2 (Sample.claimDraw "b" "b" 700000)

def retaken : World := published taken 2 (target stale.db) (Sample.claimDraw "b" "b" 700000)

/-- The process `1` publishes too. -/
def mixed : World := published retaken 1 (target catalogued.db) (Sample.claimDraw "a" "a" 1)

theorem stale_run {C : Condition} (h : Runs C claimed) (hs : C claimed .silent) : Runs C stale := by
  obtain ⟨w₀, h₀, hrun⟩ := h
  have htick : World.Step claimed .silent stale := .tick (by decide)
  exact ⟨w₀, h₀, hrun.tail ⟨_, htick, hs⟩⟩

theorem published_run {C : Condition} {w : World} {p : Nat} {target : Target} {d : ClaimDraw}
    (h : Runs C w) (hp : w.phase p = .analysing target d) (hC : C w (.publish p stream))
    (hok : (Publish.of target d.runId d.owner ⟨fun _ => 2, 2⟩ stream).exec noFaults w.db =
      .ok (published w p target d).db) : Runs C (published w p target d) := by
  obtain ⟨w₀, h₀, hrun⟩ := h
  exact ⟨w₀, h₀, hrun.tail ⟨_, .publish hp hok, hC⟩⟩

end Scenario

/-- A function published under its claim: the row is ready, and its rows carry its run. A claim
    taken over: its process is still at work, and has left no row. -/
theorem materialization_generations_ready :
    ((∃ m ∈ Scenario.ready.db.materializations, m.status = .structureReady ∧
      m.analysisRunId = some "run:a") ∧
      ∀ m ∈ Scenario.ready.db.materializations, m.status = .structureReady →
        Scenario.ready.db.CarriesRun m.functionId m.analysisRunId) ∧
    (∃ m ∈ Scenario.retaken.db.materializations, m.status = .structureReady ∧
      m.analysisRunId = some "run:b") ∧
    Scenario.retaken.db.Without "run:a" ∧ ¬ Scenario.retaken.HoldsFunction 1 := by
  have hclaimed : Runs (fun w l => publishesHeld w l ∧ analyses "f0" w l) Scenario.claimed :=
    Scenario.claimed_runs (Scenario.catalogued_runs (fun _ => ⟨trivial, trivial⟩)
      (fun _ _ => ⟨trivial, trivial⟩) ⟨trivial, trivial⟩) (fun _ => ⟨trivial, trivial⟩)
      fun _ _ => ⟨trivial, trivial⟩
  have hready : Runs (fun w l => publishesHeld w l ∧ analyses "f0" w l) Scenario.ready := by
    refine Scenario.published_run hclaimed rfl ⟨fun target d hp => ?_, fun target d hp => ?_⟩ rfl
    · cases hp
      decide
    · cases hp
      exact ⟨rfl, _, _, rfl⟩
  have htaken : Runs (fun w l => publishesHeld w l ∧ analyses "f0" w l) Scenario.taken :=
    Scenario.analysing_run (Scenario.stale_run hclaimed ⟨trivial, trivial⟩) ⟨trivial, trivial⟩
      ⟨trivial, trivial⟩ rfl rfl ⟨by decide, Nat.le_refl _, rfl⟩ rfl
  have hpublish : World.Next (fun w l => publishesHeld w l ∧ analyses "f0" w l) Scenario.taken
      Scenario.retaken := by
    have hok : (Publish.of (Scenario.target Scenario.stale.db)
        (Sample.claimDraw "b" "b" 700000).runId (Sample.claimDraw "b" "b" 700000).owner
        ⟨fun _ => 2, 2⟩ Scenario.stream).exec noFaults Scenario.taken.db =
          .ok Scenario.retaken.db := rfl
    refine ⟨.publish 2 Scenario.stream, .publish rfl hok, fun target d hp => ?_,
      fun target d hp => ?_⟩
    · cases hp
      decide
    · cases hp
      exact ⟨rfl, _, _, rfl⟩
  have hlost : ¬ Scenario.taken.HoldsFunction 1 := by
    intro hheld
    have hrow := hheld (Scenario.target Scenario.catalogued.db) (Sample.claimDraw "a" "a" 1) rfl
    revert hrow
    decide
  obtain ⟨hwithout, hnot⟩ := (materialization_generations htaken).2.2 1
    (Scenario.target Scenario.catalogued.db) (Sample.claimDraw "a" "a" 1) rfl hlost _
    (.single hpublish)
  exact ⟨⟨by decide, (materialization_generations hready).1⟩, by decide, hwithout, hnot rfl⟩

/-- **A publish after a takeover mixes two runs**: the function is ready with the run of the
    process that took the claim over, and its relations carry the other run. -/
theorem late_snapshot :
    Runs anyStep Scenario.mixed ∧ ∃ m ∈ Scenario.mixed.db.materializations,
      m.status = .structureReady ∧ m.analysisRunId = some "run:b" ∧
        ∃ r ∈ Scenario.mixed.db.relationsOf m.functionId, r.analysisRunId = some "run:a" := by
  have hclaimed : Runs anyStep Scenario.claimed :=
    Scenario.claimed_runs (Scenario.catalogued_runs (fun _ => trivial) (fun _ _ => trivial)
      trivial) (fun _ => trivial) fun _ _ => trivial
  have htaken : Runs anyStep Scenario.taken :=
    Scenario.analysing_run (Scenario.stale_run hclaimed trivial) trivial trivial rfl rfl ⟨by decide, Nat.le_refl _, rfl⟩ rfl
  have hretaken : Runs anyStep Scenario.retaken :=
    Scenario.published_run htaken rfl trivial rfl
  exact ⟨Scenario.published_run hretaken rfl trivial rfl, by decide⟩

end Irez
