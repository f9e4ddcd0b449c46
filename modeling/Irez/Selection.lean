/-
  File:      Irez/Selection.lean
  Subject:   Which function `function_graph` takes for a catalog key, and whose entities a
             handle owns after it was materialized.

  The selection loop compares keys and names with the text it is asked for, so a name
  can stand for a key.

  * `selectFunction_iff` -- the key `fK` selects the function at `K` exactly where no
    earlier function bears that name;
  * `Identified` -- ids are handles and no function row has an owner, whatever the functions
    are named (`Reachable.identified`);
  * `materialize_fromBody` -- the entities a handle owns after a successful `materialize`
    are those of the function selected;
  * `functionGraph_selects_iff` -- both together.
-/
import Irez.Refresh

open Irez.Basis

namespace Irez

/-! ## 1. The selection loop -/

theorem functionKey_inj {i j : Nat} (h : functionKey i = functionKey j) : i = j :=
  decimal_inj ((String.append_right_inj "f").mp h)

/-- From the ordinal `i` on, the key of the function `K` places further on selects it
    exactly where none of the functions before it bears that name. -/
theorem selectFunction_from {fs : List Function} {i K : Nat} {F : Function} (hF : fs[K]? = some F) :
    selectFunction (functionKey (i + K)) i fs = some (i + K, F) ↔
      ∀ J < K, ∀ G, fs[J]? = some G → G.name ≠ functionKey (i + K) := by
  induction fs generalizing i K with
  | nil => simp at hF
  | cons G fs ih =>
    cases K with
    | zero =>
      have hG : G = F := by simpa using hF
      subst hG
      simp [selectFunction]
    | succ k =>
      have hk : functionKey i ≠ functionKey (i + (k + 1)) := by
        intro h
        have := functionKey_inj h
        omega
      have hi : i + (k + 1) = i + 1 + k := by omega
      by_cases hG : G.name = functionKey (i + (k + 1))
      · -- the name decides, at an ordinal before `K`
        have hsel : selectFunction (functionKey (i + (k + 1))) i (G :: fs) = some (i, G) := by
          simp [selectFunction, hG]
        constructor
        · intro h
          rw [hsel] at h
          have := (Prod.mk.inj (Option.some.inj h)).1
          omega
        · intro h
          exact absurd hG (h 0 (Nat.succ_pos k) G rfl)
      · have hsel : selectFunction (functionKey (i + (k + 1))) i (G :: fs) =
            selectFunction (functionKey (i + (k + 1))) (i + 1) fs := by
          simp [selectFunction, hk, hG]
        rw [hsel, hi, ih (by simpa using hF)]
        constructor
        · intro h J hJ H hH
          cases J with
          | zero =>
            obtain rfl : G = H := by simpa using hH
            rw [hi] at hG
            exact hG
          | succ j => exact h j (by omega) H (by simpa using hH)
        · intro h J hJ H hH
          exact h (J + 1) (by omega) H (by simpa using hH)

/-- **The key `fK` selects the function at `K`** exactly where no earlier function bears the
    name `fK`. -/
theorem selectFunction_iff {fs : List Function} {K : Nat} {F : Function} (hF : fs[K]? = some F) :
    selectFunction (functionKey K) 0 fs = some (K, F) ↔
      ∀ J < K, ∀ G, fs[J]? = some G → G.name ≠ functionKey K := by
  have h := @selectFunction_from fs 0 K F hF
  rwa [Nat.zero_add] at h

/-! ## 2. Names that identify -/

/-- The function records are those with a key of a function. -/
def NamesKind (kind localKey : String) : Prop :=
  ':' ∈ localKey.toList ∧ (kind = "function" ↔ ∃ key, localKey = functionLocal key)

theorem EntityRecord.Scoped.namesKind {key : String} {e : EntityRecord} (h : e.Scoped key) :
    NamesKind e.kind e.localKey := by
  refine ⟨h.colon_mem, ?_⟩
  rcases h with ⟨hk, hl⟩ | ⟨hk, hl⟩ | ⟨hf, hg, hl⟩
  · exact ⟨fun _ => ⟨key, hl⟩, fun _ => hk⟩
  · refine ⟨fun hf => ?_, fun ⟨k, hkl⟩ => absurd hkl (hl.ne_functionLocal k)⟩
    rw [hk] at hf
    exact absurd hf (by decide)
  · exact ⟨fun h => absurd h hf, fun ⟨k, hkl⟩ => absurd hkl hl.ne_functionLocal⟩

/-- Ids are handles, kinds agree with keys, and no function row has an owner. -/
structure Identified (t : Tables) : Prop where
  artifacts : ∀ a ∈ t.artifacts, a.WellNamed
  entities : ∀ e ∈ t.entities, (∃ a ∈ t.artifacts, a.id = e.artifactId ∧
    e.id = entityId a e.localKey) ∧ NamesKind e.kind e.localKey
  functions : ∀ e ∈ t.entities, e.kind = "function" → e.functionId = none

/-- The statements that name rows name them by handles of the artifact `a`. -/
def Statement.Names (a : Artifact) : Statement → Prop
  | .insertArtifact row => row.WellNamed
  | .upsertFunction row => row.artifactId = a.id ∧ row.id = entityId a row.localKey ∧
    NamesKind row.kind row.localKey ∧ row.functionId = none
  | .upsertEntity row => row.artifactId = a.id ∧ row.id = entityId a row.localKey ∧
    NamesKind row.kind row.localKey ∧ row.functionId = none
  | .setOwner _ _ id => ∃ l, id = entityId a l ∧ ':' ∈ l.toList ∧ ∀ key, l ≠ functionLocal key
  | _ => True

section Identified

variable {t t' : Tables} {a : Artifact}

/-- A row named by a handle has the handle's key. -/
theorem Identified.localKey_of_id (h : Identified t) (hs : t.Stores a) {e : Entity}
    (he : e ∈ t.entities) {l : String} (hl : ':' ∈ l.toList) (hid : e.id = entityId a l) :
    e.artifactId = a.id ∧ e.localKey = l := by
  obtain ⟨⟨b, hb, hba, hide⟩, hcolon, _⟩ := h.entities e he
  obtain ⟨c, hc, hca, hsha⟩ := hs
  have hcl : entityId c l = entityId a l := entityId_congr hsha l
  obtain ⟨hshort, hkey⟩ := entityId_inj (h.artifacts b hb).length (h.artifacts c hc).length
    hcolon hl (hide.symm.trans (hid.trans hcl.symm))
  refine ⟨?_, hkey⟩
  rw [← hba, ← hca, (h.artifacts b hb).id, (h.artifacts c hc).id, hshort]

/-- A row of a stored artifact is named by the handle of its key. -/
theorem Identified.id_of_artifact (h : Identified t) (hc : Keyed Artifact.id t.artifacts)
    (hs : t.Stores a) {e : Entity} (he : e ∈ t.entities) (haid : e.artifactId = a.id) :
    e.id = entityId a e.localKey := by
  obtain ⟨⟨b, hb, hba, hide⟩, _⟩ := h.entities e he
  obtain ⟨c, hcm, hca, hsha⟩ := hs
  obtain rfl : b = c := List.inj_on_of_nodup_map hc hb hcm (hba.trans (haid.trans hca.symm))
  rw [hide, entityId_congr hsha]

/-- The invariant reads, of the artifacts, the columns no statement writes. -/
theorem Identified.of_artifacts (h : Identified t) (ha : ∀ a' ∈ t'.artifacts, a'.WellNamed)
    (ha' : ∀ a ∈ t.artifacts, ∃ a' ∈ t'.artifacts, a'.id = a.id ∧
      a'.contentSha256 = a.contentSha256)
    (he : t'.entities = t.entities) : Identified t' where
  artifacts := ha
  entities := by
    rw [he]
    intro e hem
    obtain ⟨⟨a, ham, haid, hid⟩, hkind⟩ := h.entities e hem
    obtain ⟨a', ham', haid', hsha⟩ := ha' a ham
    exact ⟨⟨a', ham', haid'.trans haid, hid.trans (entityId_congr hsha.symm _)⟩, hkind⟩
  functions := by
    rw [he]
    exact h.functions

theorem Identified.sameArtifacts (h : Identified t) (ha : SameArtifacts t t')
    (he : t'.entities = t.entities) : Identified t' :=
  h.of_artifacts (ha.wellNamed h.artifacts) ha.kept he

/-- A rewrite of entity rows that keeps their names. -/
theorem Identified.rewriteEntities (h : Identified t) {p : Entity → Bool} {g : Entity → Entity}
    (ha : t'.artifacts = t.artifacts) (he : t'.entities = updateWhere p g t.entities)
    (hg : ∀ e ∈ t.entities, p e = true → (g e).id = e.id ∧ (g e).artifactId = e.artifactId ∧
      (g e).kind = e.kind ∧ (g e).localKey = e.localKey ∧
      (e.kind = "function" → (g e).functionId = e.functionId)) :
    Identified t' where
  artifacts := by
    rw [ha]
    exact h.artifacts
  entities := by
    rw [ha, he]
    intro e' hem'
    obtain ⟨e, hem, rfl⟩ := mem_updateWhere.mp hem'
    split
    · rename_i hp
      obtain ⟨hid, haid, hk, hl, _⟩ := hg e hem hp
      rw [hid, haid, hk, hl]
      exact h.entities e hem
    · exact h.entities e hem
  functions := by
    rw [he]
    intro e' hem' hk'
    obtain ⟨e, hem, rfl⟩ := mem_updateWhere.mp hem'
    split at hk'
    · rename_i hp
      obtain ⟨_, _, hk, _, ho⟩ := hg e hem hp
      rw [if_pos hp, ho (hk.symm.trans hk')]
      exact h.functions e hem (hk.symm.trans hk')
    · rename_i hp
      rw [if_neg hp]
      exact h.functions e hem hk'

/-- A new row named by its handle. -/
theorem Identified.insertEntity (h : Identified t) (hs : t.Stores a) {row : Entity}
    (haid : row.artifactId = a.id) (hid : row.id = entityId a row.localKey)
    (hk : NamesKind row.kind row.localKey) (ho : row.functionId = none)
    (ha : t'.artifacts = t.artifacts) (he : t'.entities = t.entities ++ [row]) : Identified t' where
  artifacts := by
    rw [ha]
    exact h.artifacts
  entities := by
    rw [ha, he]
    intro e hem
    rcases List.mem_append.mp hem with hem | hem
    · exact h.entities e hem
    · rw [List.mem_singleton.mp hem]
      obtain ⟨b, hb, hba, hsha⟩ := hs
      exact ⟨⟨b, hb, hba.trans haid.symm, hid.trans (entityId_congr hsha.symm _)⟩, hk⟩
  functions := by
    rw [he]
    intro e hem hkf
    rcases List.mem_append.mp hem with hem | hem
    · exact h.functions e hem hkf
    · rw [List.mem_singleton.mp hem]
      exact ho

/-- An upsert of a row named by its handle, which rewrites no name. -/
theorem Identified.upsertEntity (h : Identified t) (hs : t.Stores a) {row : Entity}
    (haid : row.artifactId = a.id) (hid : row.id = entityId a row.localKey)
    (hk : NamesKind row.kind row.localKey) (ho : row.functionId = none)
    {g : Entity → Entity → Entity} (ha : t'.artifacts = t.artifacts)
    (he : t'.entities = upsert Entity.localPair g row t.entities)
    (hg : ∀ n e, (g n e).id = e.id ∧ (g n e).artifactId = e.artifactId ∧ (g n e).kind = e.kind ∧
      (g n e).localKey = e.localKey ∧ (g n e).functionId = e.functionId) : Identified t' := by
  unfold upsert at he
  split at he
  · refine h.rewriteEntities ha he fun e _ _ => ?_
    obtain ⟨h1, h2, h3, h4, h5⟩ := hg row e
    exact ⟨h1, h2, h3, h4, fun _ => h5⟩
  · exact h.insertEntity hs haid hid hk ho ha he

theorem Identified.insertArtifact (h : Identified t) {row : Artifact} (hrow : row.WellNamed) :
    Identified ((Statement.insertArtifact row).effect t) := by
  refine h.of_artifacts (fun a' ha' => ?_) (fun a' ha' => ⟨a', List.mem_append_left _ ha', rfl, rfl⟩)
    rfl
  rcases List.mem_append.mp ha' with ha' | ha'
  · exact h.artifacts a' ha'
  · rw [List.mem_singleton.mp ha']
    exact hrow

/-- **One statement keeps the invariant.** -/
theorem Identified.effect (h : Identified t) (hs : t.Stores a) {s : Statement} (hn : s.Names a) :
    Identified (s.effect t) := by
  cases s with
  | insertArtifact row => exact h.insertArtifact hn
  | upsertFunction row =>
    obtain ⟨haid, hid, hk, ho⟩ := hn
    exact h.upsertEntity hs haid hid hk ho rfl rfl fun _ _ => ⟨rfl, rfl, rfl, rfl, rfl⟩
  | upsertEntity row =>
    obtain ⟨haid, hid, hk, ho⟩ := hn
    exact h.upsertEntity hs haid hid hk ho rfl rfl fun _ _ => ⟨rfl, rfl, rfl, rfl, rfl⟩
  | setOwner f b id =>
    obtain ⟨l, hid, hcolon, hnot⟩ := hn
    refine h.rewriteEntities rfl rfl fun e he hp => ⟨rfl, rfl, rfl, rfl, fun hk => ?_⟩
    obtain ⟨_, hl⟩ := h.localKey_of_id hs he hcolon ((of_decide_eq_true hp).trans hid)
    obtain ⟨key, hkey⟩ := (h.entities e he).2.2.mp hk
    exact absurd (hl.symm.trans hkey) (hnot key)
  | markEntity state id =>
    exact h.rewriteEntities rfl rfl fun _ _ _ => ⟨rfl, rfl, rfl, rfl, fun _ => rfl⟩
  | deleteEntities f =>
    refine ⟨h.artifacts, fun e he => ?_, fun e he => ?_⟩
    · exact h.entities e (mem_deleteWhere.mp he).1
    · exact h.functions e (mem_deleteWhere.mp he).1
  | _ => exact h.sameArtifacts (Statement.sameArtifacts (fun _ => Statement.noConfusion) t) rfl

/-- **A run of statements keeps the invariant.** -/
theorem Identified.effects (h : Identified t) (hs : t.Stores a) {ss : List Statement}
    (hn : ∀ s ∈ ss, s.Names a) : Identified (Irez.effects ss t) :=
  effects_stored h hs fun s hmem _ h hs => h.effect hs (hn s hmem)

end Identified

/-! ## 3. The transactions -/

theorem namesKind_function (key : String) : NamesKind "function" (functionLocal key) :=
  ⟨colon_mem_functionLocal key, fun _ => ⟨key, rfl⟩, fun _ => rfl⟩

theorem publishCatalogStatements_names (a : Artifact) (run : String) (module : ModuleRecord)
    (records : List Record) (endedAt : Time) :
    ∀ s ∈ publishCatalogStatements a run module records endedAt, s.Names a := by
  intro s hs
  unfold publishCatalogStatements at hs
  rw [List.mem_append, List.mem_append, List.mem_singleton, List.mem_singleton] at hs
  rcases hs with (rfl | hs) | rfl
  · trivial
  · obtain ⟨f, _, hs⟩ := List.mem_flatMap.mp hs
    simp only [FunctionRecord.statements, List.mem_cons, List.not_mem_nil, or_false] at hs
    rcases hs with rfl | rfl | rfl
    · exact ⟨rfl, rfl, namesKind_function f.key, rfl⟩
    · trivial
    · trivial
  · trivial

namespace Publish

variable {p : Publish} {t : Tables}

theorem replaceStatements_names (hp : ∀ e ∈ p.entities, NamesKind e.kind e.localKey) :
    ∀ s ∈ replaceStatements p.target p.entities, s.Names p.target.artifact := by
  intro s hs
  unfold replaceStatements at hs
  rcases List.mem_append.mp hs with hs | hs
  · simp only [List.mem_cons, List.not_mem_nil, or_false] at hs
    rcases hs with rfl | rfl | rfl
    · trivial
    · trivial
    · trivial
  · obtain ⟨e, he, rfl⟩ := List.mem_map.mp hs
    exact ⟨rfl, rfl, hp e he, rfl⟩

theorem writeStatements_names (hp : ∀ e ∈ p.entities, NamesKind e.kind e.localKey) (t : Tables) :
    ∀ s ∈ p.writeStatements (p.localIds t), s.Names p.target.artifact := by
  intro s hs
  unfold writeStatements ownerStatements at hs
  simp only [List.mem_append, List.mem_map, List.mem_cons, List.not_mem_nil, or_false] at hs
  rcases hs with ((((⟨e, he, rfl⟩ | ⟨r, _, rfl⟩) | ⟨q, _, rfl⟩) | rfl | rfl) | ⟨c, _, rfl⟩) | rfl | rfl
  · obtain ⟨he, hi⟩ := List.mem_filter.mp he
    obtain ⟨hcolon, hkind⟩ := hp e he
    refine ⟨e.localKey, by rw [ids_declared p t he]; rfl, hcolon, fun key hl => ?_⟩
    have hk : e.kind = "function" := hkind.mpr ⟨key, hl⟩
    simp [EntityRecord.interior, hk] at hi
  all_goals trivial

end Publish

section Transactions

variable {t : Tables}

/-- A function read from identified tables is named by its key. -/
theorem Identified.enter (h : Identified t) (hc : t.Constraints) {handle : String} {refresh : Bool}
    {target : Target} (hent : Irez.enter t handle refresh = .ok (.analyse target)) :
    t.Stores target.artifact ∧ target.Named ∧ target.function ∈ t.entities ∧
      target.function.kind = "function" := by
  obtain ⟨hfn, _, hart⟩ := enter_analyse hent
  obtain ⟨hlook, hkind⟩ := Option.filter_eq_some_iff.mp hfn
  have hmem : target.function ∈ t.entities := mem_of_lookup hlook
  have hkind : target.function.kind = "function" := of_decide_eq_true hkind
  have haid : target.artifact.id = target.function.artifactId := key_of_lookup hart
  have hst : t.Stores target.artifact := ⟨_, mem_of_lookup hart, rfl, rfl⟩
  obtain ⟨key, hl⟩ := (h.entities _ hmem).2.2.mp hkind
  have hid := h.id_of_artifact hc.artifactKey hst hmem haid.symm
  refine ⟨hst, ?_, hmem, hkind⟩
  unfold Target.Named Target.handle
  rw [Target.key_of_functionLocal hl, hid, hl]

theorem Identified.published (h : Identified t) {p : Publish} (hs : t.Stores p.target.artifact)
    (hp : ∀ e ∈ p.entities, NamesKind e.kind e.localKey) :
    (Identified (p.replaced t) ∧ (p.replaced t).Stores p.target.artifact) ∧
      Identified (p.published t) := by
  have h₁ : Identified (p.replaced t) := h.effects hs (Publish.replaceStatements_names hp)
  have hs₁ : (p.replaced t).Stores p.target.artifact := hs.effects _
  exact ⟨⟨h₁, hs₁⟩, h₁.effects hs₁ (Publish.writeStatements_names hp (p.replaced t))⟩

theorem Identified.finish {env : Environment} {target : Target} {d : MaterializeDraw}
    {outcome : Outcome} {db db' : Database} {result : Except Thrown Materialized}
    (h : Identified db.toTables) (hst : db.Stores target.artifact)
    (ho : ∀ records, outcome = .ok records → firstError records = none →
      ∀ e ∈ entityRecords records, NamesKind e.kind e.localKey)
    (hf : Irez.finish env target d outcome db = (db', result)) : Identified db'.toTables := by
  have hfail : ∀ e, failWith env.failure target d e db = (db', result) →
      Identified db'.toTables := by
    intro e he
    unfold failWith at he
    split at he
    · rename_i db₂ h₂
      cases he
      rw [failFunction_ok h₂]
      exact ⟨h.artifacts, h.entities, h.functions⟩
    · cases he
      exact h
  unfold Irez.finish at hf
  split at hf
  · exact hfail _ hf
  · rename_i records hacc
    obtain ⟨hout, hnone⟩ := accept_ok hacc
    split at hf
    · exact hfail _ hf
    · rename_i db₂ hpub
      cases hf
      obtain ⟨_, _, _, _, _, ht⟩ := Publish.exec_ok hpub
      rw [ht]
      exact (@Identified.published _ h (Publish.of target d.claim.runId d.claim.owner d.publish
        records) hst (ho records hout hnone)).2

theorem Identified.finishCatalog {env : Environment} {a : Artifact} {d : CatalogDraw}
    {outcome : Outcome} {db db' : Database} {result : Except Thrown Unit}
    (h : Identified db.toTables) (hst : db.Stores a)
    (hf : Irez.finishCatalog env a d outcome db = (db', result)) : Identified db'.toTables := by
  have hfail : ∀ e, failCatalogWith env.failure a.id d e db = (db', result) →
      Identified db'.toTables := by
    intro e he
    unfold failCatalogWith at he
    split at he
    · rename_i db₂ h₂
      cases he
      rw [transaction_ok h₂]
      refine h.effects hst fun s hs => ?_
      simp only [failCatalogStatements, List.mem_cons, List.not_mem_nil, or_false] at hs
      rcases hs with rfl | rfl
      · trivial
      · trivial
    · cases he
      exact h
  unfold Irez.finishCatalog at hf
  split at hf
  · exact hfail _ hf
  · split at hf
    · cases hf
      exact h
    · split at hf
      · exact hfail _ hf
      · rename_i db₂ hpub
        cases hf
        rw [transaction_ok hpub]
        exact h.effects hst (publishCatalogStatements_names _ _ _ _ _)

end Transactions

/-! ## 4. Runs with the adapter -/

/-- What `adapter::function_graph` answers: the error record of the parser, or the graph for
    the key asked for in whatever module the file holds. -/
def AdapterAnswers : Answers := fun target outcome => ∀ records, outcome = .ok records →
  (∃ message, records = [.error message]) ∨ ∃ pd M, records = functionGraph pd M target.key

theorem selectFunction_none {pd : Function → PostDominatorTree} {M : Module} {key : String}
    (h : selectFunction key 0 M.functions = none) :
    firstError (functionGraph pd M key) = some "function key not found" := by
  unfold functionGraph
  rw [h]
  rfl

/-- Every stream of the adapter that is no failure names its entities as it should. -/
theorem AdapterAnswers.namesKind {target : Target} {outcome : Outcome}
    (h : AdapterAnswers target outcome) {records : List Record} (hr : outcome = .ok records)
    (hnone : firstError records = none) :
    ∀ e ∈ entityRecords records, NamesKind e.kind e.localKey := by
  intro e he
  have hmem := mem_entityRecords.mp he
  rcases h records hr with ⟨message, rfl⟩ | ⟨pd, M, rfl⟩
  · simp at hmem
  · cases hsel : selectFunction target.key 0 M.functions with
    | none =>
      rw [selectFunction_none hsel] at hnone
      cases hnone
    | some selected => exact (functionGraph_scoped hsel hmem).namesKind

/-- **One call keeps the invariant**, whatever the functions are named. -/
theorem Identified.step {db db' : Database} (h : Identified db.toTables)
    (hstep : Step AdapterAnswers db db') : Identified db'.toTables := by
  cases hstep with
  | store ha he =>
    rw [exec_ok he]
    exact h.insertArtifact ha
  | @catalog env graph d a index _ _ result ha hr =>
    unfold refreshCatalog at hr
    split at hr
    · cases hr
      exact h
    · rename_i db₁ hc
      obtain ⟨run, _, h₁⟩ := claimCatalog_effects hc
      have hst : db.Stores a := ⟨a, ha, rfl, rfl⟩
      have hI₁ : Identified db₁.toTables := by
        rw [h₁]
        refine h.effects hst fun s hs => ?_
        simp only [List.mem_cons, List.not_mem_nil, or_false] at hs
        rcases hs with rfl | rfl | rfl
        · trivial
        · trivial
        · trivial
      have hst₁ : db₁.Stores a := by
        rw [h₁]
        exact hst.effects _
      exact hI₁.finishCatalog hst₁ hr
  | @materialize env graph d handle refresh _ _ result hg hm =>
    unfold materialize at hm
    split at hm
    · cases hm
      exact h
    · cases hm
      exact h
    · rename_i target hent
      split at hm
      · cases hm
        exact h
      · rename_i db₁ hc
        obtain ⟨hst, _⟩ := h.enter db.constraints hent
        have h₁ : Identified db₁.toTables := by
          obtain ⟨_, _, _, _, h₁⟩ := claimFunction_ok hc
          rw [h₁]
          exact ⟨h.artifacts, h.entities, h.functions⟩
        exact h₁.finish (claimFunction_stores hc hst)
          (fun records hr hnone => (hg target hent).namesKind hr hnone) hm

theorem Identified.fresh {t : Tables} (h : t.Fresh) : Identified t where
  artifacts := by
    rw [h.artifacts]
    exact fun a ha => absurd ha List.not_mem_nil
  entities := by
    rw [h.entities]
    exact fun e he => absurd he List.not_mem_nil
  functions := by
    rw [h.entities]
    exact fun e he => absurd he List.not_mem_nil

/-- **Ids are handles in every state reached with the adapter.** -/
theorem Reachable.identified {db : Database} (h : Reachable AdapterAnswers db) :
    Identified db.toTables := by
  obtain ⟨db₀, h₀, hrun⟩ := h
  induction hrun with
  | refl => exact Identified.fresh h₀
  | tail _ hstep ih => exact ih.step hstep

/-! ## 5. What a handle owns -/

/-- The row of an entity that the body of the selected function emitted. -/
structure Entity.FromBody (S : Selected) (T : PostDominatorTree) (x : Entity) : Prop where
  inside : ScopedTo (functionKey S.ordinal) x.localKey
  emits : ∃ e, .entity e ∈ (S.graph T).records ∧ x.localKey = e.localKey ∧
    x.exactText = e.exactText ∧ x.opcode = e.opcode ∧ x.llvmType = e.llvmType ∧
    x.attributes = e.attributes

/-- A loop of updates rewrites owners and blocks only, and owners only of the rows it names. -/
theorem mem_updateAll_owners {us : List (String × (Entity → Entity))}
    (hu : ∀ u ∈ us, ∃ f b, u.2 = fun x => { x with functionId := f, blockId := b })
    {rows : List Entity} {x : Entity} (hx : x ∈ updateAll Entity.id us rows) :
    ∃ y ∈ rows, (∃ b, x = { y with functionId := x.functionId, blockId := b }) ∧
      (x.functionId = y.functionId ∨ ∃ u ∈ us, u.1 = y.id) := by
  induction us generalizing rows with
  | nil => exact ⟨x, hx, ⟨x.blockId, rfl⟩, Or.inl rfl⟩
  | cons u us ih =>
    obtain ⟨z, hz, ⟨b, hxz⟩, how⟩ := ih (fun v hv => hu v (List.mem_cons_of_mem _ hv)) hx
    obtain ⟨y, hy, rfl⟩ := mem_updateWhere.mp hz
    by_cases hid : y.id = u.1
    · obtain ⟨f, b', hg⟩ := hu u List.mem_cons_self
      refine ⟨y, hy, ⟨b, ?_⟩, Or.inr ⟨u, List.mem_cons_self, hid.symm⟩⟩
      rw [if_pos (decide_eq_true hid), hg] at hxz
      exact hxz
    · simp only [hid, decide_false] at hxz how
      refine ⟨y, hy, ⟨b, hxz⟩, ?_⟩
      rcases how with how | ⟨v, hv, hvid⟩
      · exact Or.inl how
      · exact Or.inr ⟨v, List.mem_cons_of_mem _ hv, hvid⟩

namespace Publish

variable {p : Publish} {t : Tables}

/-- `local_to_id` answers with handles in identified tables. -/
theorem localIds_eq (h : Identified t) (hc : Keyed Artifact.id t.artifacts)
    (hs : t.Stores p.target.artifact) {l i : String} (hi : p.localIds t l = some i) :
    i = entityId p.target.artifact l := by
  unfold localIds localToId at hi
  split at hi
  · exact (Option.some.inj hi).symm
  · split at hi
    · obtain ⟨r, hr, rfl⟩ := Option.map_eq_some_iff.mp hi
      have hmem : r ∈ t.entities := mem_of_lookup hr
      have hpair : r.localPair = (p.target.artifact.id, l) := key_of_lookup hr
      obtain ⟨haid, hl⟩ := Prod.mk.inj hpair
      have hid := h.id_of_artifact hc hs hmem haid
      rw [hid]
      exact congrArg (entityId p.target.artifact) hl
    · cases hi

theorem functionId_eq (h : Identified t) (hc : Keyed Artifact.id t.artifacts)
    (hs : t.Stores p.target.artifact) (hn : p.target.Named) :
    p.functionId (p.localIds t) = p.target.handle := by
  unfold functionId
  cases hi : p.localIds t ("function:" ++ p.target.key) with
  | none => rfl
  | some i => exact (localIds_eq h hc hs hi).trans hn.symm

/-- **Every entity a handle owns after a publish is one of the stream's.** -/
theorem owned_from_stream (h : Identified t) (hc : t.Constraints)
    (hs : t.Stores p.target.artifact) (hn : p.target.Named)
    (hfn : ∀ e ∈ t.entities, e.id = p.target.handle → e.functionId = none)
    (hp : ∀ e ∈ p.entities, NamesKind e.kind e.localKey)
    (hd : (p.entities.map (·.localKey)).Nodup) {x : Entity} (hx : x ∈ (p.published t).entities)
    (ho : x.functionId = some p.target.handle) :
    ∃ e ∈ p.entities, e.interior = true ∧ x.localKey = e.localKey ∧ x.exactText = e.exactText ∧
      x.opcode = e.opcode ∧ x.llvmType = e.llvmType ∧ x.attributes = e.attributes := by
  obtain ⟨⟨h₁, hs₁⟩, _⟩ := h.published hs hp
  have ht : p.replaced t = _ := p.replaceStatements_effect t
  have hc₁ : Keyed Artifact.id (p.replaced t).artifacts := by
    rw [ht]
    exact hc.artifactKey
  have hpub : (p.published t).entities = _ :=
    congrArg Tables.entities (p.writeStatements_effect (p.localIds (p.replaced t)) (p.replaced t))
  rw [hpub] at hx
  obtain ⟨x', hx', hxx'⟩ := mem_updateWhere.mp hx
  -- marking the function's row changes nothing the result reads
  have hsame : x.functionId = x'.functionId ∧ x.localKey = x'.localKey ∧
      x.exactText = x'.exactText ∧ x.opcode = x'.opcode ∧ x.llvmType = x'.llvmType ∧
      x.attributes = x'.attributes := by
    rw [hxx']
    split
    · exact ⟨rfl, rfl, rfl, rfl, rfl, rfl⟩
    · exact ⟨rfl, rfl, rfl, rfl, rfl, rfl⟩
  have hu : ∀ u ∈ p.owners (p.localIds (p.replaced t)),
      ∃ f b, u.2 = fun x : Entity => { x with functionId := f, blockId := b } := by
    intro u hu
    obtain ⟨e, _, rfl⟩ := List.mem_map.mp hu
    exact ⟨_, _, rfl⟩
  obtain ⟨y, hy, ⟨b, hxy⟩, how⟩ := mem_updateAll_owners hu hx'
  have hyt : y ∈ upsertAll Entity.localPair Entity.restructure p.rows (p.keptEntities t) := by
    rw [ht] at hy
    exact hy
  have hkeyed : Keyed Entity.localPair (p.keptEntities t) :=
    Keyed.deleteWhere hc.entityLocal _
  have hpair : ∀ n y, Entity.localPair (Entity.restructure n y) = Entity.localPair y :=
    fun _ _ => rfl
  have hrow := fun y => mem_upsertAll hkeyed hpair (rows_keyed hd) (r := y)
  have hkept : ∀ y₀ ∈ p.keptEntities t, y₀.functionId ≠ some p.target.handle := by
    intro y₀ hy₀ hown
    obtain ⟨hmem, hdel⟩ := mem_deleteWhere.mp hy₀
    have hid : y₀.id = p.target.handle := by simpa [hown] using hdel
    rw [hfn y₀ hmem hid] at hown
    cases hown
  have hfree : y.functionId ≠ some p.target.handle := by
    rcases (hrow y).mp hyt with ⟨new, hnew, _, hy'⟩ | ⟨hy₀, _⟩
    · obtain ⟨e, _, rfl⟩ := List.mem_map.mp hnew
      cases hlook : lookup Entity.localPair y.localPair (p.keptEntities t) with
      | none =>
        rw [hlook] at hy'
        rw [hy']
        intro hcon
        cases hcon
      | some y₀ =>
        rw [hlook] at hy'
        rw [hy']
        exact hkept y₀ (mem_of_lookup hlook)
    · exact hkept y hy₀
  rcases how with how | ⟨u, hum, hid⟩
  · exact absurd (how.symm.trans (hsame.1.symm.trans ho)) hfree
  · obtain ⟨e, he, rfl⟩ := List.mem_map.mp hum
    obtain ⟨he, hi⟩ := List.mem_filter.mp he
    have hide : y.id = entityId p.target.artifact e.localKey := by
      rw [← hid]
      show (p.localIds (p.replaced t) e.localKey).getD "" = _
      rw [ids_declared p _ he]
      rfl
    obtain ⟨hyaid, hyl⟩ := h₁.localKey_of_id hs₁ hy (hp e he).1 hide
    have hcols : y.exactText = e.exactText ∧ y.opcode = e.opcode ∧ y.llvmType = e.llvmType ∧
        y.attributes = e.attributes := by
      rcases (hrow y).mp hyt with
        ⟨new, hnew, hkey, hy'⟩ | ⟨_, hne⟩
      · obtain ⟨e', he', rfl⟩ := List.mem_map.mp hnew
        have hl' : e'.localKey = e.localKey := (Prod.mk.inj hkey).2.trans hyl
        obtain rfl := List.inj_on_of_nodup_map hd he' he hl'
        rw [hy']
        cases lookup Entity.localPair y.localPair (p.keptEntities t) with
        | none => exact ⟨rfl, rfl, rfl, rfl⟩
        | some y₀ => exact ⟨rfl, rfl, rfl, rfl⟩
      · exact absurd (Prod.ext hyaid.symm hyl.symm) (hne _ (List.mem_map_of_mem he))
    obtain ⟨_, hl, h1, h2, h3, h4⟩ := hsame
    rw [hxy] at hl h1 h2 h3 h4
    exact ⟨e, he, hi, hl.trans hyl, h1.trans hcols.1, h2.trans hcols.2.1,
      h3.trans hcols.2.2.1, h4.trans hcols.2.2.2⟩

end Publish

/-! ## 6. The key of a function -/

/-- **The entities a handle owns after a successful `materialize`** are those the body of the
    function selected emitted, whatever was stored before. -/
theorem materialize_fromBody {db db' : Database} (hreach : Reachable AdapterAnswers db)
    {env : Environment} {graph : String → String → Outcome} {d : MaterializeDraw}
    {handle : String} {refresh : Bool} {target : Target} {run : String} {m n K : Nat}
    {pd : Function → PostDominatorTree} {M : Module} {F : Function}
    (hent : enter db.toTables handle refresh = .ok (.analyse target))
    (hrec : graph target.artifact.storedPath target.key = .ok (functionGraph pd M target.key))
    (hsel : selectFunction target.key 0 M.functions = some (K, F))
    (h : materialize env graph d handle refresh db = (db', .ok (.published run m n))) :
    ∀ x ∈ db'.entities, x.functionId = some handle → x.FromBody ⟨M, K, F⟩ (pd F) := by
  intro x hx ho
  have hI := hreach.identified
  obtain ⟨hst, hn, hmem, hkind⟩ := hI.enter db.constraints hent
  have hhandle := (enter_analyse hent).2.1
  simp only [materialize, hent] at h
  split at h
  · cases h
  · rename_i db₁ hc
    have hst₁ := claimFunction_stores hc hst
    obtain ⟨_, _, _, _, h₁⟩ := claimFunction_ok hc
    have hI₁ : Identified db₁.toTables := by
      rw [h₁]
      exact ⟨hI.artifacts, hI.entities, hI.functions⟩
    have hfn : ∀ e ∈ db₁.entities, e.id = target.handle → e.functionId = none := by
      rw [h₁]
      intro e he hid
      obtain rfl := List.inj_on_of_nodup_map db.constraints.entityKey he hmem hid
      exact hI.functions _ hmem hkind
    unfold finish at h
    split at h
    · unfold failWith at h
      split at h
      · cases h
      · cases h
    · rename_i records hacc
      have hrs := (accept_ok hacc).1
      rw [hrec] at hrs
      obtain rfl := Except.ok.inj hrs
      split at h
      · unfold failWith at h
        split at h
        · cases h
        · cases h
      · rename_i db₂ hpub
        cases h
        obtain ⟨hlocals, _, _, _, _, ht⟩ := Publish.exec_ok hpub
        rw [← hhandle] at ho
        rw [ht] at hx
        obtain ⟨e, he, hi, hl, hcols⟩ := Publish.owned_from_stream hI₁ db₁.constraints hst₁ hn hfn
          (fun e he => (functionGraph_scoped hsel (mem_entityRecords.mp he)).namesKind)
          (checkLocals_ok hlocals).1 hx ho
        have hin := mem_entityRecords.mp he
        refine ⟨?_, e, functionGraph_eq hsel ▸ hin, hl, hcols⟩
        rw [hl]
        refine (functionGraph_scoped hsel hin).interior_iff.mp ?_
        unfold EntityRecord.interior at hi
        simpa using hi

/-- **The key of a function and its snapshot.** For every module and every ordinal `K`, the
    key `fK` selects the function at `K`, and in every state reached a successful
    `materialize` of that key leaves the handle with entities of this function's body only,
    exactly where no function before `K` bears the name `fK`. -/
theorem functionGraph_selects_iff {M : Module} {K : Nat} {F : Function}
    (hF : M.functions[K]? = some F) :
    (selectFunction (functionKey K) 0 M.functions = some (K, F) ∧
      ∀ (db db' : Database) (env : Environment) (graph : String → String → Outcome)
        (d : MaterializeDraw) (handle : String) (refresh : Bool) (target : Target) (run : String)
        (m n : Nat) (pd : Function → PostDominatorTree), Reachable AdapterAnswers db →
        enter db.toTables handle refresh = .ok (.analyse target) → target.key = functionKey K →
        graph target.artifact.storedPath target.key = .ok (functionGraph pd M target.key) →
        materialize env graph d handle refresh db = (db', .ok (.published run m n)) →
        ∀ x ∈ db'.entities, x.functionId = some handle → x.FromBody ⟨M, K, F⟩ (pd F)) ↔
    ∀ J < K, ∀ G, M.functions[J]? = some G → G.name ≠ functionKey K := by
  constructor
  · intro h
    exact (selectFunction_iff hF).mp h.1
  · intro h
    have hsel := (selectFunction_iff hF).mpr h
    refine ⟨hsel, ?_⟩
    intro db db' env graph d handle refresh target run m n pd hreach hent hK hrec hmat
    rw [← hK] at hsel
    exact materialize_fromBody hreach hent hrec hsel hmat

namespace Distinct

open Collision (function tree draw f1)

/-- Neither function bears the key of the other. -/
def module : Module := { Collision.module with functions := [function "g", function "h"] }

def adapter : Adapter :=
  ⟨fun _ => .ok (catalog module), fun _ key => .ok (functionGraph (fun _ => tree) module key)⟩

def catalogued : Database :=
  (refreshCatalog Sample.environment adapter.catalog ⟨Sample.claimDraw "c" "c" 1, 2, 2⟩
    Sample.artifact .catalog Sample.database).1

/-- The second function materialized. -/
def analysed : Database :=
  (materialize Sample.environment adapter.functionGraph (draw "a") f1 false catalogued).1

def target : Target :=
  ⟨(catalogued.entity f1).getD (Sample.record.entityRow Sample.artifact),
    (catalogued.artifact Sample.artifact.id).getD Sample.artifact⟩

theorem catalogued_reachable : Reachable AdapterAnswers catalogued := by
  have h₀ : Collision.empty.Fresh := ⟨rfl, rfl, rfl, rfl, rfl, rfl, rfl⟩
  have h₁ : Step AdapterAnswers Collision.empty Sample.database :=
    @Step.store AdapterAnswers noFaults Sample.artifact _ _ ⟨by decide, by decide⟩ rfl
  have hcat : refreshCatalog Sample.environment adapter.catalog
      ⟨Sample.claimDraw "c" "c" 1, 2, 2⟩ Sample.artifact .catalog Sample.database =
      (catalogued, .ok ()) := rfl
  have h₂ : Step AdapterAnswers Sample.database catalogued :=
    .catalog (List.mem_singleton.mpr rfl) hcat
  exact ⟨Collision.empty, h₀, (Relation.ReflTransGen.single h₁).tail h₂⟩

end Distinct

open Distinct in
/-- The second of two functions is selected and materialized by its key. -/
theorem functionGraph_selects_f1 :
    selectFunction (functionKey 1) 0 module.functions = some (1, Collision.function "h") ∧
      (∃ x ∈ analysed.entities, x.functionId = some Collision.f1) ∧
      ∀ x ∈ analysed.entities, x.functionId = some Collision.f1 →
        x.FromBody ⟨module, 1, Collision.function "h"⟩ Collision.tree := by
  have hF : module.functions[1]? = some (Collision.function "h") := rfl
  have hfree : ∀ J < 1, ∀ G, module.functions[J]? = some G → G.name ≠ functionKey 1 := by
    intro J hJ G hG
    obtain rfl : J = 0 := by omega
    obtain rfl := Option.some.inj hG
    decide
  obtain ⟨hsel, hrows⟩ := (functionGraph_selects_iff hF).mpr hfree
  refine ⟨hsel, by decide, ?_⟩
  exact hrows catalogued analysed Sample.environment adapter.functionGraph (Collision.draw "a")
    Collision.f1 false target "run:a" 3 2 (fun _ => Collision.tree) catalogued_reachable rfl rfl rfl rfl

/-- **The key `f1` of that module selects the function at 0**, and after a successful
    `materialize` of its handle in a reachable state the handle owns a block of `f0`. -/
theorem key_selects_other_function :
    selectFunction (functionKey 1) 0 Collision.module.functions =
      some (0, Collision.function "f1") ∧
    Reachable AdapterAnswers Collision.catalogued ∧
    (materialize Sample.environment Collision.adapter.functionGraph (Collision.draw "a")
      Collision.f1 false Collision.catalogued) =
        (Collision.analysed, .ok (.published "run:a" 3 2)) ∧
    Collision.row ∈ Collision.analysed.entities ∧
    Collision.row.functionId = some Collision.f1 ∧
    ¬ ScopedTo (functionKey 1) Collision.row.localKey := by
  refine ⟨rfl, Collision.catalogued_reachable _, rfl, by decide, rfl, fun h => ?_⟩
  have hl : ScopedTo (functionKey 0) Collision.row.localKey :=
    Selected.blockKey_scoped ⟨Collision.module, 0, Collision.function "f1"⟩ 0
  have h10 := ScopedTo.inj (by decide) (by decide) h hl
  exact absurd (functionKey_inj h10) (by decide)

end Irez
