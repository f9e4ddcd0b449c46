/-
  File:      Irez/Refresh.lean
  Subject:   A refresh replaces exactly one function's snapshot: `materialize` in the
             states reached by storing, cataloguing and materializing.

  * `Step`, `Reachable` -- the calls of one process, one after the other; each
    `materialize` is restricted by what its adapter outcome may be;
  * `Reachable.sound` -- ownership is kept as long as every outcome is a stream of the
    function asked for;
  * `materialize_replaces_snapshot` -- what a successful `materialize` leaves;
  * `Collision` -- a module in which a function bears the key of a later one: the adapter
    then answers with the wrong body, and a refresh changes rows of another function.
-/
import Irez.Snapshot
import Irez.Stream
import Mathlib.Logic.Relation

open Irez.Basis

namespace Irez

/-! ## 1. Calls in a row -/

/-- What the adapter may answer for a target. -/
abbrev Answers := Target → Outcome → Prop

/-- One call of a single process. -/
inductive Step (answers : Answers) : Database → Database → Prop where
  | store {io : Faults} {a : Artifact} {db db' : Database} (ha : a.WellNamed)
      (h : exec io (.insertArtifact a) db = .ok db') : Step answers db db'
  | catalog {env : Environment} {graph : String → Outcome} {d : CatalogDraw} {a : Artifact}
      {index : IndexLevel} {db db' : Database} {result : Except Thrown Unit}
      (ha : a ∈ db.artifacts) (h : refreshCatalog env graph d a index db = (db', result)) :
      Step answers db db'
  | materialize {env : Environment} {graph : String → String → Outcome} {d : MaterializeDraw}
      {handle : String} {refresh : Bool} {db db' : Database} {result : Except Thrown Materialized}
      (hg : ∀ target, enter db.toTables handle refresh = .ok (.analyse target) →
        answers target (graph target.artifact.storedPath target.key))
      (h : materialize env graph d handle refresh db = (db', result)) : Step answers db db'

/-- The tables `init` leaves. -/
structure Tables.Fresh (t : Tables) : Prop where
  artifacts : t.artifacts = []
  runs : t.runs = []
  entities : t.entities = []
  relations : t.relations = []
  sourceLocations : t.sourceLocations = []
  materializations : t.materializations = []
  capabilities : t.capabilities = []

def Reachable (answers : Answers) (db : Database) : Prop :=
  ∃ db₀ : Database, db₀.Fresh ∧ Relation.ReflTransGen (Step answers) db₀ db

/-! ## 2. Streams of the function asked for -/

/-- A stream whose entities are the function's own, whose relations end at what it declares
    or at functions, and whose source records name what it declares inside the function. -/
structure OwnStream (key : String) (records : List Record) : Prop where
  entities : ∀ e ∈ entityRecords records, e.Scoped key
  endpoints : ∀ r ∈ relationRecords records, ∀ l, l = r.src ∨ l = r.dst →
    l ∈ (entityRecords records).map (·.localKey) ∨ ∃ k, l = functionLocal k
  sources : ∀ s ∈ sourceRecords records, ∃ e ∈ entityRecords records,
    e.interior = true ∧ e.localKey = s.entity

/-- The target is a function `fK`, and the records, if any, are a stream of its own. -/
def AnswersOwn : Answers := fun target outcome =>
  (∃ K, target.key = functionKey K) ∧ ∀ records, outcome = .ok records →
    OwnStream target.key records

theorem colon_not_mem_functionKey (K : Nat) : ':' ∉ (functionKey K).toList := by
  unfold functionKey
  rw [String.toList_append, List.mem_append]
  intro h
  rcases h with h | h
  · exact absurd h (by decide)
  · exact not_mem_decimal (by decide) K h

theorem OwnStream.own {target : Target} {records : List Record} (h : OwnStream target.key records)
    {K : Nat} (hK : target.key = functionKey K) (run owner : String) (draw : PublishDraw) :
    (Publish.of target run owner draw records).Own .scoped where
  entities e he := by
    have hclean : ':' ∉ target.key.toList := by
      rw [hK]
      exact colon_not_mem_functionKey K
    rcases h.entities e he with ⟨hk, hl⟩ | ⟨hk, hl⟩ | ⟨hf, hg, hl⟩
    · exact Or.inl ⟨hk, _, hl⟩
    · exact Or.inr (Or.inl ⟨hk, hl⟩)
    · exact Or.inr (Or.inr ⟨hf, hg, hclean, hl⟩)
  endpoints r hr l hl key hown := by
    have hclean : ':' ∉ target.key.toList := by
      rw [hK]
      exact colon_not_mem_functionKey K
    rcases h.endpoints r hr l hl with hm | ⟨k, hk⟩
    · obtain ⟨e, he, rfl⟩ := List.mem_map.mp hm
      rcases h.entities e he with ⟨_, hel⟩ | ⟨_, hel⟩ | ⟨_, _, hel⟩
      · exact absurd hel (Territory.ne_functionLocal hown _)
      · exact absurd hel (Territory.not_global hown)
      · exact Territory.disjoint .scoped hown ⟨hclean, hel⟩
    · exact absurd hk (Territory.ne_functionLocal hown k)
  sources := h.sources

/-! ## 3. Ownership is kept -/

theorem Sound.fresh (T : Territory) {t : Tables} (h : t.Fresh) : Sound T t where
  artifacts := by
    rw [h.artifacts]
    exact fun a ha => absurd ha List.not_mem_nil
  entities := by
    rw [h.entities]
    exact fun e he => absurd he List.not_mem_nil
  relations := by
    rw [h.relations]
    exact fun r hr => absurd hr List.not_mem_nil
  sources := by
    rw [h.sourceLocations]
    exact fun s hs => absurd hs List.not_mem_nil

/-- After a claim the tables the publish reads are those before it. -/
theorem claimFunction_stores {io : Faults} {d : ClaimDraw} {target : Target} {db db₁ : Database}
    {a : Artifact} (hc : claimFunction io d target db = .ok db₁) (h : db.Stores a) : db₁.Stores a := by
  obtain ⟨_, _, _, _, h₁⟩ := claimFunction_ok hc
  rw [h₁]
  exact h

theorem accept_ok {outcome : Outcome} {records : List Record} (h : accept outcome = .ok records) :
    outcome = .ok records ∧ firstError records = none := by
  unfold accept at h
  split at h
  · cases h
  · split at h
    · cases h
    · rename_i rs hnone
      cases h
      exact ⟨rfl, hnone⟩

theorem Sound.finish {T : Territory} {env : Environment} {target : Target} {d : MaterializeDraw}
    {outcome : Outcome} {db db' : Database} {result : Except Thrown Materialized}
    (hs : Sound T db.toTables) (hst : db.Stores target.artifact) (hn : target.Named)
    (ho : ∀ records, outcome = .ok records →
      (Publish.of target d.claim.runId d.claim.owner d.publish records).Own T)
    (h : Irez.finish env target d outcome db = (db', result)) : Sound T db'.toTables := by
  have hfail : ∀ e, failWith env.failure target d e db = (db', result) → Sound T db'.toTables := by
    intro e he
    unfold failWith at he
    split at he
    · rename_i db₂ h₂
      cases he
      exact hs.failFunction rfl h₂
    · cases he
      exact hs
  unfold Irez.finish at h
  split at h
  · exact hfail _ h
  · rename_i records hacc
    split at h
    · exact hfail _ h
    · rename_i db₂ hpub
      cases h
      obtain ⟨hfits, hres, ht⟩ := Publish.exec_published hs hst hn
        (ho records (accept_ok hacc).1) hpub
      rw [ht]
      exact hfits.sound_published hres

theorem Sound.finishCatalog {T : Territory} {env : Environment} {a : Artifact} {d : CatalogDraw}
    {outcome : Outcome} {db db' : Database} {result : Except Thrown Unit}
    (hs : Sound T db.toTables) (hst : db.Stores a)
    (h : Irez.finishCatalog env a d outcome db = (db', result)) : Sound T db'.toTables := by
  have hfail : ∀ e, failCatalogWith env.failure a.id d e db = (db', result) →
      Sound T db'.toTables := by
    intro e he
    unfold failCatalogWith at he
    split at he
    · rename_i db₂ h₂
      cases he
      exact hs.failCatalog rfl h₂
    · cases he
      exact hs
  unfold Irez.finishCatalog at h
  split at h
  · exact hfail _ h
  · split at h
    · cases h
      exact hs
    · split at h
      · exact hfail _ h
      · rename_i db₂ hpub
        cases h
        have ht := transaction_ok hpub
        rw [ht]
        exact hs.publishCatalog hst _ _ _ _

/-- **One call keeps ownership.** -/
theorem Sound.step {db db' : Database} (hs : Sound .scoped db.toTables)
    (h : Step AnswersOwn db db') : Sound .scoped db'.toTables := by
  cases h with
  | store ha h =>
    rw [exec_ok h]
    exact hs.insertArtifact ha
  | @catalog env graph d a index _ _ result ha h =>
    unfold refreshCatalog at h
    split at h
    · cases h
      exact hs
    · rename_i db₁ hc
      have hst : db₁.Stores a := by
        obtain ⟨_, _, _, _, h₁⟩ := claimCatalog_ok hc
        rw [h₁]
        refine ⟨_, mem_updateWhere.mpr ⟨_, mem_updateWhere.mpr ⟨a, ha, rfl⟩, rfl⟩, ?_⟩
        split
        · split
          · exact ⟨rfl, rfl⟩
          · exact ⟨rfl, rfl⟩
        · split
          · exact ⟨rfl, rfl⟩
          · exact ⟨rfl, rfl⟩
      exact (hs.claimCatalog rfl hc).finishCatalog hst h
  | @materialize env graph d handle refresh _ _ result hg h =>
    unfold materialize at h
    split at h
    · cases h
      exact hs
    · cases h
      exact hs
    · rename_i target hent
      split at h
      · cases h
        exact hs
      · rename_i db₁ hc
        obtain ⟨hst, hn⟩ := hs.enter db.constraints hent
        obtain ⟨⟨K, hK⟩, hstream⟩ := hg target hent
        exact (hs.claimFunction rfl hc).finish (claimFunction_stores hc hst) hn
          (fun records hr => (hstream records hr).own hK _ _ _) h

/-- **Ownership holds in every state reached** with streams of the functions asked for. -/
theorem Reachable.sound {db : Database} (h : Reachable AnswersOwn db) :
    Sound .scoped db.toTables := by
  obtain ⟨db₀, h₀, hrun⟩ := h
  induction hrun with
  | refl => exact Sound.fresh _ h₀
  | tail _ hstep ih => exact ih.step hstep

/-! ## 4. What a successful refresh leaves -/

/-- The claim changes neither the entities nor what hangs on them. -/
theorem SnapshotReplaced.of_rows {p : Publish} {t t₁ t' : Tables} (h : SnapshotReplaced p t₁ t')
    (he : t₁.entities = t.entities) (hr : t₁.relations = t.relations)
    (hs : t₁.sourceLocations = t.sourceLocations) (hc : t₁.capabilities = t.capabilities) :
    SnapshotReplaced p t t' where
  entities := h.entities
  relations := h.relations
  sources := h.sources
  capabilities := h.capabilities
  globals := h.globals
  others f hf :=
    { entities := fun x ho => by
        rw [← he]
        exact (h.others f hf).entities x ho
      relations := by
        have := (h.others f hf).relations
        unfold Tables.relationsOf at this ⊢
        rw [this, hr]
      sources := by
        have := (h.others f hf).sources
        unfold Tables.sourcesOf Tables.owned at this ⊢
        rw [this, hs, he]
      capabilities := by
        have := (h.others f hf).capabilities
        unfold Tables.capabilitiesOf at this ⊢
        rw [this, hc] }

/-- A stream that declares no other function leaves the rows of other functions alone. -/
theorem Publish.Fits.functionRows {T : Territory} {t : Tables} {p : Publish} (h : p.Fits T t)
    (hr : p.Resolved t)
    (hf : ∀ e ∈ p.entities, e.kind = "function" → e.localKey = functionLocal p.target.key)
    {x : Entity} (hk : x.kind = "function") (hid : x.id ≠ p.target.handle) :
    x ∈ (p.published t).entities ↔ x ∈ t.entities := by
  constructor
  · intro hx
    rcases h.row hr hx with ⟨he, hi, hrow⟩ | ⟨he, hi, haid, hid', hl, hkey, ho⟩ | ⟨hy, _, _, hrow⟩
    · rename_i e
      have hkind : e.kind = "function" := by
        rw [hrow] at hk
        exact hk
      simp [EntityRecord.interior, hkind] at hi
    · rename_i e
      rcases h.own.entities e he with ⟨hef, _⟩ | ⟨_, heg⟩ | ⟨_, _, hown⟩
      · rw [hf e he hef, ← h.named] at hid'
        exact absurd hid' hid
      · rcases hkey with ⟨_, key, hxl⟩ | ⟨hxk, _⟩
        · exact absurd (hl.symm.trans hxl) (heg.ne_functionLocal key)
        · rw [hk] at hxk
          exact absurd hxk (by decide)
      · rw [(h.own.interior_iff he).mpr hown] at hi
        cases hi
    · split at hrow
      · rename_i hyid
        rw [hrow] at hid
        exact absurd hyid hid
      · rw [hrow]
        exact hy
  · intro hx
    obtain ⟨b, hb, hbx, hxid, hp⟩ := h.sound.entities x hx
    obtain ⟨key, hxl, hxo⟩ : ∃ key, x.localKey = functionLocal key ∧ x.functionId = none := by
      rcases hp with ⟨key, _, hl, ho⟩ | ⟨hg, _, _⟩ | ⟨_, hnf, _, _, _⟩
      · exact ⟨key, hl, ho⟩
      · rw [hk] at hg
        exact absurd hg (by decide)
      · exact absurd hk hnf
    have hm := h.mem_kept hr hx (by simp [hxo]) fun e he hc => ?_
    · rwa [if_neg hid] at hm
    · rcases h.own.entities e he with ⟨hef, _⟩ | ⟨_, heg⟩ | ⟨_, _, hown⟩
      · refine hid ?_
        rw [h.named, h.id_of_entity hx hc.1, hc.2, hf e he hef]
      · exact heg.ne_functionLocal key (hc.2.symm.trans hxl)
      · exact Territory.ne_functionLocal hown key (hc.2.symm.trans hxl)

theorem OwnStream.function_key {key : String} {records : List Record} (h : OwnStream key records) :
    ∀ e ∈ entityRecords records, e.kind = "function" → e.localKey = functionLocal key := by
  intro e he hk
  rcases h.entities e he with ⟨_, hl⟩ | ⟨hg, _⟩ | ⟨hf, _, _⟩
  · exact hl
  · rw [hk] at hg
    exact absurd hg (by decide)
  · exact absurd hk hf

/-- The materialization rows of other functions through claim and publish. -/
theorem filter_updateWhere_other {f : String} {p : Materialization → Bool}
    {g : Materialization → Materialization} (hp : ∀ m, p m = true → m.functionId = f)
    (hg : ∀ m, (g m).functionId = m.functionId) (ms : List Materialization) :
    (updateWhere p g ms).filter (·.functionId ≠ f) = ms.filter (·.functionId ≠ f) := by
  induction ms with
  | nil => rfl
  | cons m ms ih =>
    have hcons : updateWhere p g (m :: ms) = (if p m then g m else m) :: updateWhere p g ms := rfl
    rw [hcons]
    by_cases hm : p m = true
    · have hf := hp m hm
      have hgf : (g m).functionId = f := (hg m).trans hf
      simpa [hm, hf, hgf] using ih
    · by_cases hf : m.functionId = f
      · simpa [hm, hf] using ih
      · simpa [hm, hf] using ih

/-- **A refresh replaces exactly one function's snapshot.** In every state reached with
    streams of the functions asked for, a successful `materialize` of `fK` with such a
    stream leaves exactly that stream as the function's snapshot, no dangling endpoint,
    and every row of every other function as it was. -/
theorem materialize_replaces_snapshot {db db' : Database} (hreach : Reachable AnswersOwn db)
    {env : Environment} {graph : String → String → Outcome} {d : MaterializeDraw}
    {handle : String} {refresh : Bool} {target : Target} {records : List Record} {run : String}
    {entityCount relationCount K : Nat}
    (hent : enter db.toTables handle refresh = .ok (.analyse target))
    (hK : target.key = functionKey K)
    (hrec : graph target.artifact.storedPath target.key = .ok records)
    (hown : OwnStream target.key records)
    (h : materialize env graph d handle refresh db =
      (db', .ok (.published run entityCount relationCount))) :
    SnapshotReplaced (Publish.of target d.claim.runId d.claim.owner d.publish records)
      db.toTables db'.toTables ∧
    (∀ x : Entity, x.kind = "function" → x.id ≠ handle →
      (x ∈ db'.entities ↔ x ∈ db.entities)) ∧
    db'.materializations.filter (·.functionId ≠ handle) =
      db.materializations.filter (·.functionId ≠ handle) ∧
    (∀ r ∈ db'.relations, r.srcId ∈ db'.entityIds ∧ r.dstId ∈ db'.entityIds) ∧
    (∀ s ∈ db'.sourceLocations, s.entityId ∈ db'.entityIds) := by
  have hs := hreach.sound
  obtain ⟨hst, hn⟩ := hs.enter db.constraints hent
  have hhandle := (enter_analyse hent).2.1
  simp only [materialize, hent] at h
  split at h
  · cases h
  · rename_i db₁ hc
    have hs₁ := hs.claimFunction rfl hc
    have hst₁ := claimFunction_stores hc hst
    obtain ⟨_, _, _, _, h₁⟩ := claimFunction_ok hc
    unfold finish at h
    split at h
    · unfold failWith at h
      split at h
      · cases h
      · cases h
    · rename_i rs hacc
      have hrs := (accept_ok hacc).1
      rw [hrec] at hrs
      obtain rfl := Except.ok.inj hrs
      split at h
      · unfold failWith at h
        split at h
        · cases h
        · cases h
      · rename_i db₂ hpub
        cases h
        obtain ⟨hfits, hres, ht⟩ := Publish.exec_published hs₁ hst₁ hn
          (hown.own hK d.claim.runId d.claim.owner d.publish) hpub
        refine ⟨?_, ?_, ?_, ?_, ?_⟩
        · have hrep := hfits.snapshotReplaced hres
          rw [← ht] at hrep
          exact hrep.of_rows (by rw [h₁]) (by rw [h₁]) (by rw [h₁]) (by rw [h₁])
        · intro x hk hid
          have hrows := hfits.functionRows hres hown.function_key hk (by
            rw [← hhandle] at hid
            exact hid)
          rw [ht, hrows, h₁]
        · have hm : db'.materializations = _ :=
            congrArg Tables.materializations (ht.trans (hfits.published_eq hres))
          have hm₁ : db₁.materializations = _ := congrArg Tables.materializations h₁
          rw [hm]
          have hp : ∀ m : Materialization, (decide (m.functionId = target.handle) &&
              decide (m.claimOwner = some d.claim.owner)) = true → m.functionId = handle := by
            intro m hm
            simp only [Bool.and_eq_true, decide_eq_true_eq] at hm
            exact hm.1.trans hhandle
          have hp₁ : ∀ m : Materialization, (decide (m.functionId = target.handle) &&
              m.claimable d.claim.now) = true → m.functionId = handle := by
            intro m hm
            simp only [Bool.and_eq_true, decide_eq_true_eq] at hm
            exact hm.1.trans hhandle
          have hg : ∀ m, (Materialization.published d.claim.runId m).functionId = m.functionId :=
            fun _ => rfl
          have hg₁ : ∀ m, (Materialization.claimed d.claim.owner d.claim.claimedAt m).functionId =
              m.functionId := fun _ => rfl
          refine (filter_updateWhere_other hp hg db₁.materializations).trans ?_
          rw [hm₁]
          exact filter_updateWhere_other hp₁ hg₁ db.materializations
        · intro r hr
          exact ⟨(db'.constraints.relationRefs r hr).2.1, (db'.constraints.relationRefs r hr).2.2.1⟩
        · intro s hsm
          exact (db'.constraints.sourceRefs s hsm).2.1

/-! ## 5. A module whose first function bears the key of the second -/

namespace Collision

def instruction (opcode : String) : Instruction :=
  { name := "", opcode := opcode, type := "void", text := opcode, attributes := [],
    operands := [], incoming := none, call := none, locations := [] }

/-- A function of one block that returns. -/
def function (name : String) : Function :=
  { name := name, linkage := 0, signature := "void ()", text := name, fingerprint := name,
    arguments := [], blocks := [⟨"entry", [], instruction "ret", .other, []⟩],
    successors_lt := by decide }

/-- `f0` is named `f1`. -/
def module : Module :=
  { identifier := "m", sourceFile := "m.c", targetTriple := "", dataLayout := "",
    functions := [function "f1", function "g"], globals := [], others := [] }

/-- The tree of a function of one block. -/
def tree : PostDominatorTree where
  contains i := i = 0
  dominates a b := a = b
  getIDom
    | .block 0 => some .root
    | _ => none
  level
    | .root => 0
    | .block _ => 1
  level_lt := by
    intro n m h
    match n, h with
    | .block 0, h =>
      cases h
      decide
    | .block (_ + 1), h => cases h
    | .root, h => cases h

def stream (key : String) : List Record := functionGraph (fun _ => tree) module key

def adapter : Adapter := ⟨fun _ => .ok (catalog module), fun _ key => .ok (stream key)⟩

def f0 : String := entityId Sample.artifact (functionLocal "f0")

def f1 : String := entityId Sample.artifact (functionLocal "f1")

def draw (run : String) : MaterializeDraw := ⟨Sample.claimDraw run run 1, ⟨fun _ => 2, 2⟩, 2⟩

/-- A state after `init`. -/
def empty : Database := ⟨{ Sample.tables with artifacts := [] }, by decide⟩

/-- The module catalogued. -/
def catalogued : Database :=
  (refreshCatalog Sample.environment adapter.catalog ⟨Sample.claimDraw "c" "c" 1, 2, 2⟩
    Sample.artifact .catalog Sample.database).1

/-- `f1` materialized: the adapter answered with the body of `f0`. -/
def analysed : Database :=
  (materialize Sample.environment adapter.functionGraph (draw "a") f1 false catalogued).1

/-- `f0` materialized after it. -/
def refreshed : Database :=
  (materialize Sample.environment adapter.functionGraph (draw "b") f0 false analysed).1

/-- What the adapter answers for this module. -/
def answers : Answers := fun target outcome =>
  outcome = adapter.functionGraph target.artifact.storedPath target.key

theorem catalogued_reachable (answers : Answers) : Reachable answers catalogued := by
  have h₀ : empty.Fresh := ⟨rfl, rfl, rfl, rfl, rfl, rfl, rfl⟩
  have h₁ : Step answers empty Sample.database :=
    @Step.store answers noFaults Sample.artifact _ _ ⟨by decide, by decide⟩ rfl
  have hcat : refreshCatalog Sample.environment adapter.catalog
      ⟨Sample.claimDraw "c" "c" 1, 2, 2⟩ Sample.artifact .catalog Sample.database =
      (catalogued, .ok ()) := rfl
  have h₂ : Step answers Sample.database catalogued := .catalog (List.mem_singleton.mpr rfl) hcat
  exact ⟨empty, h₀, (Relation.ReflTransGen.single h₁).tail h₂⟩

theorem analysed_reachable : Reachable answers analysed := by
  obtain ⟨db₀, h₀, hrun⟩ := catalogued_reachable answers
  have hmat : materialize Sample.environment adapter.functionGraph (draw "a") f1 false catalogued =
      (analysed, .ok (.published "run:a" 3 2)) := rfl
  exact ⟨db₀, h₀, hrun.tail (.materialize (fun _ _ => rfl) hmat)⟩

theorem stream_f0_own : OwnStream "f0" (stream "f0") := by
  refine ⟨fun e he => ?_, ?_, ?_⟩
  · have hsel : selectFunction "f0" 0 module.functions = some (0, function "f1") := rfl
    exact functionGraph_scoped hsel (mem_entityRecords.mp he)
  · have hends : ∀ r ∈ relationRecords (stream "f0"),
        r.src ∈ (entityRecords (stream "f0")).map (·.localKey) ∧
        r.dst ∈ (entityRecords (stream "f0")).map (·.localKey) := by decide
    intro r hr l hl
    rcases hl with rfl | rfl
    · exact Or.inl (hends r hr).1
    · exact Or.inl (hends r hr).2
  · have hnone : sourceRecords (stream "f0") = [] := by decide
    rw [hnone]
    exact fun s hs => absurd hs List.not_mem_nil

/-- `f0` materialized, and nothing else. -/
def first : Database :=
  (materialize Sample.environment adapter.functionGraph (draw "a") f0 false catalogued).1

/-- `f0` materialized again, with `--refresh`. -/
def again : Database :=
  (materialize Sample.environment adapter.functionGraph (draw "b") f0 true first).1

/-- `f0` as a state names it. -/
def target (db : Database) : Target :=
  ⟨(db.entity f0).getD ((⟨"f0", 0, "", false, "", "", ""⟩ : FunctionRecord).entityRow Sample.artifact),
    (db.artifact Sample.artifact.id).getD Sample.artifact⟩

theorem first_reachable : Reachable AnswersOwn first := by
  obtain ⟨db₀, h₀, hrun⟩ := catalogued_reachable AnswersOwn
  have hmat : materialize Sample.environment adapter.functionGraph (draw "a") f0 false catalogued =
      (first, .ok (.published "run:a" 3 2)) := rfl
  refine ⟨db₀, h₀, hrun.tail (.materialize (fun target' hent => ?_) hmat)⟩
  have hread : enter catalogued.toTables f0 false = .ok (.analyse (target catalogued)) := rfl
  obtain rfl : target catalogued = target' := by
    have he := Except.ok.inj (hread.symm.trans hent)
    injection he
  refine ⟨⟨0, rfl⟩, fun records hrecords => ?_⟩
  rw [← Except.ok.inj hrecords]
  exact stream_f0_own

/-- Materializing `f0` again replaces its snapshot, rows of the first run, and nothing else. -/
theorem materialize_replaces_snapshot_f0 :
    (∃ r ∈ first.relationsOf f0, r.analysisRunId = some "run:a") ∧
      (∀ r ∈ again.relationsOf f0, r.analysisRunId = some "run:b") ∧
      SnapshotReplaced (Publish.of (target first) "run:b" "b" ⟨fun _ => 2, 2⟩ (stream "f0"))
        first.toTables again.toTables := by
  have hrows : ∀ r ∈ again.relationsOf f0, r.analysisRunId = some "run:b" := by decide +kernel
  have hanswer : (materialize Sample.environment adapter.functionGraph (draw "b") f0 true first).2 =
      .ok (.published "run:b" 3 2) := by decide +kernel
  have hent : enter first.toTables f0 true = .ok (.analyse (target first)) := by decide +kernel
  have hkey : (target first).key = functionKey 0 := by decide +kernel
  have hrec : adapter.functionGraph (target first).artifact.storedPath (target first).key =
      .ok (stream "f0") := by
    rw [hkey]
    rfl
  have hown : OwnStream (target first).key (stream "f0") := by
    rw [hkey]
    exact stream_f0_own
  refine ⟨by decide +kernel, hrows, ?_⟩
  unfold again
  generalize hmat : materialize Sample.environment adapter.functionGraph (draw "b") f0 true first =
    call at hanswer ⊢
  obtain ⟨db', result⟩ := call
  obtain rfl : result = .ok (.published "run:b" 3 2) := hanswer
  exact (materialize_replaces_snapshot first_reachable hent hkey hrec hown hmat).1

/-- The block of `f0`, as `f1` came to own it. -/
def row : Entity :=
  { entityRow Sample.artifact (Selected.blockEntity ⟨module, 0, function "f1"⟩
      ⟨"entry", [], instruction "ret", .other, []⟩ 0) with functionId := some f1 }

/-- **A refresh of `f0` with a stream of its own takes rows of `f1`.** -/
theorem refresh_takes_rows :
    Reachable answers analysed ∧ OwnStream "f0" (stream "f0") ∧
      (materialize Sample.environment adapter.functionGraph (draw "b") f0 false analysed).2 =
        .ok (.published "run:b" 3 2) ∧
      f1 ≠ f0 ∧ ¬ SameRows f1 analysed.toTables refreshed.toTables := by
  refine ⟨analysed_reachable, stream_f0_own, by decide, by decide, fun h => ?_⟩
  have hin : row ∈ analysed.entities := by decide
  have hout : row ∉ refreshed.entities := by decide
  exact hout ((h.entities row rfl).mpr hin)

end Collision

end Irez
