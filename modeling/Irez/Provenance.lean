/-
  File:      Irez/Provenance.lean
  Subject:   Evidence comes from the artifact's bytes: the service over its database and its
             content store together (service.cpp 248-485, 670-964; store.cpp 172-225).

  `ingest_file` checks the bytes of a file once; the catalog and `materialize` read the stored
  file by its path later, in calls of their own, and do not look. What they publish is filed
  under the artifact all the same. This file runs both halves on one state:

  * `Deployment`, `Deployment.Step` -- the processes of System.lean and the store of StoreRuns.lean, with
    the write lock between them, and the adapter calls that read a stored file;
  * `World.Step.written` -- what one transaction writes, and from which records;
  * `World.Step.identified` -- the handles of the rows it leaves;
  * `FromBytes` -- the rows of relations and of source locations, as the adapter reads them off
    bytes with the artifact's hash;
  * `evidence_from_bytes` -- every row of every state reached comes from such bytes, every stream
    published next does, and a second ingest of a stored file answers with its own artifact.
    Nobody but the program writes to the files under final names.
-/
import Irez.Selection
import Irez.StoreRuns
import Irez.System

open Irez.Basis

namespace Irez

open Program StoreProgram

/-! ## 1. What a transaction writes -/

/-- The columns of an artifact that say which file it is. -/
def Artifact.origin (a : Artifact) : String × String × String × String :=
  (a.id, a.investigationId, a.contentSha256, a.storedPath)

/-- **The row of a record** of the stream for a function of an artifact, but for the run: the keys
    of the record stand for handles of the artifact. -/
structure Relation.Written (a : Artifact) (key : String) (q : RelationRecord) (r : Relation) :
    Prop where
  artifact : r.artifactId = a.id
  function : r.functionId = some (entityId a (functionLocal key))
  src : r.srcId = entityId a q.src
  dst : r.dstId = entityId a q.dst
  kind : r.kind = q.kind
  ordinal : r.ordinal = q.ordinal
  modality : r.modality = q.modality
  precision : r.precision = q.precision
  attributes : r.attributes = q.attributes

structure SourceLocation.Written (a : Artifact) (q : SourceRecord) (s : SourceLocation) : Prop where
  artifact : s.artifactId = a.id
  entity : s.entityId = Irez.entityId a q.entity
  file : s.file = q.file
  line : s.line = q.line
  column : s.columnNo = q.column
  discriminator : s.discriminator = q.discriminator
  inlineDepth : s.inlineDepth = q.inlineDepth
  scope : s.scopeName = some q.scope

/-- It is a matter of the artifact's name and hash. -/
theorem Relation.Written.congr {a b : Artifact} {key : String} {q : RelationRecord} {r : Relation}
    (h : r.Written a key q) (hid : b.id = a.id) (hsha : b.contentSha256 = a.contentSha256) :
    r.Written b key q :=
  { h with
    artifact := h.artifact.trans hid.symm
    function := h.function.trans (congrArg some (entityId_congr hsha _)).symm
    src := h.src.trans (entityId_congr hsha _).symm
    dst := h.dst.trans (entityId_congr hsha _).symm }

theorem SourceLocation.Written.congr {a b : Artifact} {q : SourceRecord} {s : SourceLocation}
    (h : s.Written a q) (hid : b.id = a.id) (hsha : b.contentSha256 = a.contentSha256) :
    s.Written b q :=
  { h with
    artifact := h.artifact.trans hid.symm
    entity := h.entity.trans (entityId_congr hsha _).symm }

/-- A statement that inserts no artifact, and only such relations and source locations. -/
def Statement.Inserts (R : Relation → Prop) (S : SourceLocation → Prop) : Statement → Prop
  | .insertArtifact _ => False
  | .insertRelation r => R r
  | .insertSourceLocation s => S s
  | _ => True

/-- What such statements leave. -/
structure Inserted (R : Relation → Prop) (S : SourceLocation → Prop) (t t' : Tables) : Prop where
  origins : t'.artifacts.map Artifact.origin = t.artifacts.map Artifact.origin
  investigation : t.artifacts ≠ [] → t'.investigation = t.investigation
  relations : ∀ r ∈ t'.relations, r ∈ t.relations ∨ R r
  sources : ∀ s ∈ t'.sourceLocations, s ∈ t.sourceLocations ∨ S s

section Inserts

variable {R : Relation → Prop} {S : SourceLocation → Prop} {t t' : Tables}

theorem Inserted.refl (t : Tables) : Inserted R S t t :=
  ⟨rfl, fun _ => rfl, fun _ h => .inl h, fun _ h => .inl h⟩

theorem Inserted.artifacts_ne (h : Inserted R S t t') (hne : t.artifacts ≠ []) :
    t'.artifacts ≠ [] := by
  intro hnil
  have horigins := h.origins
  rw [hnil, List.map_nil] at horigins
  exact hne (List.map_eq_nil_iff.mp horigins.symm)

theorem Statement.Inserts.inserted {s : Statement} (h : s.Inserts R S) (t : Tables) :
    Inserted R S t (s.effect t) := by
  cases s with
  | insertArtifact row => exact absurd h id
  | requestFull | claimCatalog | setCatalogRun | publishArtifact | failArtifact | completeFull =>
    refine ⟨map_updateWhere ?_ t.artifacts, fun _ => rfl, fun _ h => .inl h, fun _ h => .inl h⟩
    intro a
    rfl
  | insertRelation row =>
    refine ⟨rfl, fun _ => rfl, fun r hr => ?_, fun _ h => .inl h⟩
    rcases List.mem_append.mp hr with hr | hr
    · exact .inl hr
    · rw [List.mem_singleton.mp hr]
      exact .inr h
  | insertSourceLocation row =>
    refine ⟨rfl, fun _ => rfl, fun _ h => .inl h, fun x hx => ?_⟩
    rcases List.mem_append.mp hx with hx | hx
    · exact .inl hx
    · rw [List.mem_singleton.mp hx]
      exact .inr h
  | deleteRelations =>
    exact ⟨rfl, fun _ => rfl, fun _ hr => .inl (mem_deleteWhere.mp hr).1, fun _ h => .inl h⟩
  | deleteSourceLocations =>
    exact ⟨rfl, fun _ => rfl, fun _ h => .inl h, fun _ hx => .inl (mem_deleteWhere.mp hx).1⟩
  | _ => exact ⟨rfl, fun _ => rfl, fun _ h => .inl h, fun _ h => .inl h⟩

theorem Inserted.effects {ss : List Statement} (h : ∀ s ∈ ss, s.Inserts R S) (t : Tables) :
    Inserted R S t (effects ss t) := by
  induction ss generalizing t with
  | nil => exact .refl t
  | cons s ss ih =>
    have hone := (h s List.mem_cons_self).inserted t
    have hrest := ih (fun s' hs' => h s' (List.mem_cons_of_mem _ hs')) (s.effect t)
    refine ⟨hrest.origins.trans hone.origins, fun hne => ?_, fun r hr => ?_, fun x hx => ?_⟩
    · exact (hrest.investigation (hone.artifacts_ne hne)).trans (hone.investigation hne)
    · exact (hrest.relations r hr).elim (hone.relations r) .inr
    · exact (hrest.sources x hx).elim (hone.sources x) .inr

end Inserts

/-- A publish of the process `p` under its claim: the records the label names. -/
def World.Publishes (w : World) (l : Label) (target : Target) (records : List Record) : Prop :=
  ∃ p d, l = .publish p records ∧ w.phase p = .analysing target d

/-- A relation of such a publish. -/
def World.NewRelation (w : World) (l : Label) (r : Relation) : Prop :=
  ∃ target records, w.Publishes l target records ∧
    ∃ q ∈ relationRecords records, r.Written target.artifact target.key q

def World.NewSource (w : World) (l : Label) (s : SourceLocation) : Prop :=
  ∃ target records, w.Publishes l target records ∧
    ∃ q ∈ sourceRecords records, s.Written target.artifact q

/-- The function that a process materializes. -/
def Phase.target : Phase → Option Target
  | .entered target => some target
  | .analysing target _ => some target
  | _ => none

/-- **What a step relies on**: rows bear the handles of their keys, and so do the functions that
    are materialized; what a process holds is stored; and records name their kinds. -/
structure World.Known (w : World) (l : Label) : Prop where
  identified : Identified w.db.toTables
  held : ∀ p a, (w.phase p).artifact = some a → a.origin ∈ w.db.artifacts.map Artifact.origin
  targets : ∀ p target, (w.phase p).target = some target → target.Named
  kinds : ∀ target records, w.Publishes l target records →
    ∀ e ∈ entityRecords records, NamesKind e.kind e.localKey

/-- The file columns of an artifact are those of a row. -/
theorem origin_row {t : Tables} {a : Artifact} (h : a.origin ∈ t.artifacts.map Artifact.origin) :
    ∃ b ∈ t.artifacts, b.id = a.id ∧ b.contentSha256 = a.contentSha256 ∧
      b.storedPath = a.storedPath := by
  obtain ⟨b, hb, he⟩ := List.mem_map.mp h
  simp only [Artifact.origin, Prod.mk.injEq] at he
  exact ⟨b, hb, he.1, he.2.2.1, he.2.2.2⟩

theorem World.Known.stores {w : World} {l : Label} (h : w.Known l) {p : Nat} {a : Artifact}
    (ha : (w.phase p).artifact = some a) : w.db.Stores a := by
  obtain ⟨b, hb, hid, hsha, _⟩ := origin_row (h.held p a ha)
  exact ⟨b, hb, hid, hsha⟩

/-- The rows of a publish. -/
theorem World.Known.rows {w : World} {l : Label} (h : w.Known l) {p : Nat} {d : ClaimDraw}
    {io : Faults} {pub : Publish} {db' : Database} (hp : w.phase p = .analysing pub.target d)
    (hk : ∀ e ∈ pub.entities, NamesKind e.kind e.localKey) (he : pub.exec io w.db = .ok db') :
    (∀ q ∈ pub.relations, (pub.relationRow (pub.localIds (pub.replaced w.db.toTables)) q).Written
      pub.target.artifact pub.target.key q) ∧
    ∀ q ∈ pub.sources, (pub.sourceRow (pub.localIds (pub.replaced w.db.toTables)) q).Written
      pub.target.artifact q := by
  obtain ⟨_, _, hc, hrel, hsrc, _⟩ := Publish.exec_ok he
  have hst : w.db.Stores pub.target.artifact := h.stores (by rw [hp]; rfl)
  have hnamed : pub.target.Named := h.targets p _ (by rw [hp]; rfl)
  obtain ⟨⟨hident, hst'⟩, _⟩ := h.identified.published hst hk
  have hresolved := Publish.resolved_of_checks hrel hsrc
  have hid : ∀ l, (∃ i, pub.localIds (pub.replaced w.db.toTables) l = some i) →
      (pub.localIds (pub.replaced w.db.toTables) l).getD "" = entityId pub.target.artifact l := by
    intro l ⟨i, hi⟩
    rw [hi]
    exact Publish.localIds_eq hident hc.artifactKey hst' hi
  have hfunction := Publish.functionId_eq hident hc.artifactKey hst' hnamed
  refine ⟨fun q hq => ?_, fun q hq => ?_⟩
  · obtain ⟨hs, hd⟩ := hresolved.relations q hq
    exact ⟨rfl, congrArg some (hfunction.trans hnamed), hid _ hs, hid _ hd, rfl, rfl, rfl, rfl, rfl⟩
  · exact ⟨rfl, hid _ (hresolved.sources q hq), rfl, rfl, rfl, rfl, rfl, rfl⟩

/-- **What one step writes**, where it inserts no artifact: the relations and the source locations
    of a publish. -/
theorem World.Step.written {w w' : World} {l : Label} (h : World.Step w l w') (hk : w.Known l)
    (hn : w'.db.artifacts.length = w.db.artifacts.length) :
    Inserted (w.NewRelation l) (w.NewSource l) w.db.toTables w'.db.toTables := by
  have hwrite : ∀ {ss : List Statement} {db' : Database},
      (∀ s ∈ ss, s.Inserts (w.NewRelation l) (w.NewSource l)) →
      db'.toTables = effects ss w.db.toTables →
      Inserted (w.NewRelation l) (w.NewSource l) w.db.toTables db'.toTables := by
    intro ss db' hss ht
    rw [ht]
    exact Inserted.effects hss _
  cases h with
  | tick | enter | ingest | leave => exact .refl _
  | init hnone he =>
    rw [he]
    refine ⟨rfl, fun hne => ?_, fun _ h => .inl h, fun _ h => .inl h⟩
    obtain ⟨a, ha⟩ := List.exists_mem_of_ne_nil _ hne
    have href := (w.db.constraints.artifactRefs a ha).1
    rw [Tables.investigationIds, hnone] at href
    exact absurd href List.not_mem_nil
  | store _ _ he =>
    have hlen := congrArg (fun t : Tables => t.artifacts.length) (exec_ok he)
    simp only [Statement.effect, List.length_append, List.length_singleton] at hlen
    simp only at hn
    omega
  | mark hs he =>
    refine hwrite (List.forall_mem_singleton.mpr ?_) (exec_ok he)
    obtain ⟨id, rfl | rfl⟩ := hs
    · trivial
    · trivial
  | claim hp hd he =>
    obtain ⟨run, _, ht⟩ := claimFunction_effects he
    refine hwrite ?_ ht
    exact List.forall_mem_cons.mpr ⟨trivial, List.forall_mem_singleton.mpr trivial⟩
  | @publish p io d target draw records db' hp he =>
    have hpub : w.Publishes (.publish p records) target records := ⟨p, d, rfl, hp⟩
    obtain ⟨hrelations, hsources⟩ := hk.rows hp (hk.kinds target records hpub) he
    obtain ⟨_, _, _, _, _, ht⟩ := Publish.exec_ok he
    rw [← effects_append] at ht
    refine hwrite (List.forall_mem_append.mpr ⟨forall_replaceStatements.mpr
      ⟨trivial, trivial, trivial, fun _ _ => trivial⟩, Publish.forall_writeStatements.mpr
        ⟨fun _ _ _ => trivial, fun q hq => ?_, fun q hq => ?_, trivial, trivial,
          fun _ _ => trivial, trivial, trivial⟩⟩) ht
    · exact ⟨target, records, hpub, q, hq, hrelations q hq⟩
    · exact ⟨target, records, hpub, q, hq, hsources q hq⟩
  | fail hp he =>
    exact hwrite (forall_failFunctionStatements.mpr ⟨trivial, trivial⟩) (transaction_ok he)
  | claimCatalog hp hd he =>
    obtain ⟨run, _, ht⟩ := claimCatalog_effects he
    refine hwrite ?_ ht
    exact List.forall_mem_cons.mpr ⟨trivial, List.forall_mem_cons.mpr
      ⟨trivial, List.forall_mem_singleton.mpr trivial⟩⟩
  | publishCatalog hp he =>
    exact hwrite (forall_publishCatalogStatements.mpr
      ⟨trivial, fun _ _ => ⟨trivial, trivial, trivial⟩, trivial⟩) (transaction_ok he)
  | failCatalog hp he =>
    exact hwrite (forall_failCatalogStatements.mpr ⟨trivial, trivial⟩) (transaction_ok he)

/-- **The handles of the rows that a step leaves.** -/
theorem World.Step.identified {w w' : World} {l : Label} (h : World.Step w l w') (hk : w.Known l) :
    Identified w'.db.toTables := by
  have hi := hk.identified
  have hwrite : ∀ {a : Artifact} {ss : List Statement} {db' : Database}, w.db.Stores a →
      (∀ s ∈ ss, s.Names a) → db'.toTables = effects ss w.db.toTables →
      Identified db'.toTables := by
    intro a ss db' hst hss ht
    rw [ht]
    exact hi.effects hst hss
  cases h with
  | tick | enter | ingest | leave => exact hi
  | init hnone he =>
    rw [he]
    exact ⟨hi.artifacts, hi.entities, hi.functions⟩
  | store ha _ he =>
    rw [exec_ok he]
    exact hi.insertArtifact ha
  | mark hs he =>
    rw [exec_ok he]
    obtain ⟨id, rfl | rfl⟩ := hs
    · exact hi.sameArtifacts (Statement.sameArtifacts (fun _ => Statement.noConfusion) _) rfl
    · exact hi.sameArtifacts (Statement.sameArtifacts (fun _ => Statement.noConfusion) _) rfl
  | @claim p io d target db' hp hd he =>
    obtain ⟨run, _, ht⟩ := claimFunction_effects he
    have hst : w.db.Stores target.artifact := hk.stores (p := p) (by rw [hp]; rfl)
    refine hwrite hst ?_ ht
    exact List.forall_mem_cons.mpr ⟨trivial, List.forall_mem_singleton.mpr trivial⟩
  | @publish p io d target draw records db' hp he =>
    have hst : w.db.Stores target.artifact := hk.stores (p := p) (by rw [hp]; rfl)
    obtain ⟨_, hpublished⟩ := hi.published (p := .of target d.runId d.owner draw records) hst
      (hk.kinds target records ⟨p, d, rfl, hp⟩)
    obtain ⟨_, _, _, _, _, ht⟩ := Publish.exec_ok he
    rw [ht]
    exact hpublished
  | @fail p io d target message endedAt db' hp he =>
    have hst : w.db.Stores target.artifact := hk.stores (p := p) (by rw [hp]; rfl)
    exact hwrite hst (forall_failFunctionStatements.mpr ⟨trivial, trivial⟩) (transaction_ok he)
  | @claimCatalog p io d a index db' hp hd he =>
    obtain ⟨run, _, ht⟩ := claimCatalog_effects he
    refine hwrite (hk.stores (p := p) (by rw [hp]; rfl)) ?_ ht
    exact List.forall_mem_cons.mpr ⟨trivial, List.forall_mem_cons.mpr
      ⟨trivial, List.forall_mem_singleton.mpr trivial⟩⟩
  | @publishCatalog p io d a module records endedAt db' hp he =>
    exact hwrite (hk.stores (p := p) (by rw [hp]; rfl))
      (publishCatalogStatements_names _ _ _ _ _) (transaction_ok he)
  | @failCatalog p io d a message endedAt db' hp he =>
    have hst : w.db.Stores a := hk.stores (p := p) (by rw [hp]; rfl)
    exact hwrite hst (forall_failCatalogStatements.mpr ⟨trivial, trivial⟩) (transaction_ok he)

/-- What a process materializes, it materialized before, or it has just read its name. -/
theorem World.Step.target {w w' : World} {l : Label} (h : World.Step w l w') (hk : w.Known l) {q : Nat}
    {target : Target} (ht : (w'.phase q).target = some target) : target.Named := by
  have hmove : ∀ {p : Nat} {phase : Phase}, w'.phase = (w.move p phase).phase →
      (phase.target = some target → target.Named) → target.Named := by
    intro p phase hw hp
    rw [hw] at ht
    by_cases hq : p = q
    · subst hq
      rw [move_phase] at ht
      exact hp ht
    · rw [move_others phase (Ne.symm hq)] at ht
      exact hk.targets q target ht
  have hnone : ∀ {phase : Phase}, phase.target = none → phase.target = some target →
      target.Named := by
    intro phase hn hs
    rw [hn] at hs
    cases hs
  cases h with
  | tick | init | store | mark => exact hk.targets q target ht
  | leave | publish | fail | publishCatalog | failCatalog | ingest | claimCatalog =>
    exact hmove rfl (hnone rfl)
  | enter hp hent =>
    refine hmove rfl fun hs => ?_
    rw [← Option.some.inj hs]
    exact (hk.identified.enter w.db.constraints hent).2.1
  | @claim p io d target' db' hp =>
    refine hmove rfl fun hs => hk.targets p target ?_
    rw [hp]
    exact hs

/-- What one step does to the phase of a process: nothing, or it is left without a claim, or with
    a new one. -/
theorem World.Step.phase {w w' : World} {l : Label} (h : World.Step w l w') (q : Nat) :
    w'.phase q = w.phase q ∨ (w'.phase q).claim = none ∨ l = .claim q ∨ l = .claimCatalog q := by
  have hmove : ∀ {p : Nat} {phase : Phase}, w'.phase = (w.move p phase).phase →
      (p = q → phase.claim = none ∨ l = .claim q ∨ l = .claimCatalog q) →
      w'.phase q = w.phase q ∨ (w'.phase q).claim = none ∨ l = .claim q ∨ l = .claimCatalog q := by
    intro p phase hw hp
    rw [hw]
    by_cases hq : p = q
    · subst hq
      rw [move_phase]
      exact .inr (hp rfl)
    · rw [move_others phase (Ne.symm hq)]
      exact .inl rfl
  cases h with
  | tick | init | store | mark => exact .inl rfl
  | enter | ingest | leave => exact hmove rfl fun _ => .inl rfl
  | publish | fail | publishCatalog | failCatalog => exact hmove rfl fun _ => .inl rfl
  | claim hp => exact hmove rfl fun hq => .inr (.inl (congrArg Label.claim hq))
  | claimCatalog hp => exact hmove rfl fun hq => .inr (.inr (congrArg Label.claimCatalog hq))

/-- What a process holds, it held before or read from the tables. -/
theorem World.Step.artifact {w w' : World} {l : Label} (h : World.Step w l w') {q : Nat}
    {a : Artifact} (ha : (w'.phase q).artifact = some a) :
    (w.phase q).artifact = some a ∨ (a ∈ w.db.artifacts ∧ w'.db = w.db) := by
  have hmove : ∀ {p : Nat} {phase : Phase}, w'.phase = (w.move p phase).phase →
      (p = q → phase.artifact = some a →
        (w.phase q).artifact = some a ∨ (a ∈ w.db.artifacts ∧ w'.db = w.db)) →
      (w.phase q).artifact = some a ∨ (a ∈ w.db.artifacts ∧ w'.db = w.db) := by
    intro p phase hw hp
    rw [hw] at ha
    by_cases hq : p = q
    · subst hq
      rw [move_phase] at ha
      exact hp rfl ha
    · rw [move_others phase (Ne.symm hq)] at ha
      exact .inl ha
  cases h with
  | tick | init | store | mark => exact .inl ha
  | leave | publish | fail | publishCatalog | failCatalog =>
    refine hmove rfl fun _ hnone => ?_
    cases hnone
  | enter hp hent =>
    refine hmove rfl fun _ hsome => .inr ⟨?_, rfl⟩
    rw [← Option.some.inj hsome]
    exact mem_of_lookup (enter_analyse hent).2.2
  | ingest hp hmem =>
    refine hmove rfl fun _ hsome => .inr ⟨?_, rfl⟩
    rw [← Option.some.inj hsome]
    exact hmem
  | claim hp =>
    refine hmove rfl fun hq hsome => .inl ?_
    rw [← hq, hp]
    exact hsome
  | claimCatalog hp =>
    refine hmove rfl fun hq hsome => .inl ?_
    rw [← hq, hp]
    exact hsome

/-! ## 2. The store between two states -/

/-- The tables after a store call: as before, or with one artifact more. -/
def Grown (t t' : Tables) : Prop := t' = t ∨ ∃ a, t' = (Statement.insertArtifact a).effect t

/-- The stored files of the artifacts hold what they held. -/
def SameFiles (db : Database) (d d' : Disk String Bytes) : Prop :=
  ∀ a ∈ db.artifacts, d'.live a.storedPath = d.live a.storedPath

section Store

variable {hash : Sha256} {stateDir : String} {m m' : Machine} {t t' : Tables}

theorem Grown.artifacts (h : Grown t t') : ∀ a ∈ t.artifacts, a ∈ t'.artifacts := by
  intro a ha
  rcases h with rfl | ⟨b, rfl⟩
  · exact ha
  · exact List.mem_append_left _ ha

/-- A call that returns leaves the tables grown. -/
theorem Returned.grown {faulty : Prop} {content : Bytes} {st₀ st : StoreState} {a : Artifact × Bool}
    (h : Returned faulty hash content st₀ (.ok a) st) : Grown st₀.db.toTables st.db.toTables := by
  obtain ⟨a, created⟩ := a
  cases created with
  | false =>
    obtain ⟨rfl, _⟩ := h
    exact .inl rfl
  | true => exact .inr ⟨a, h.2.2.2⟩

theorem Intact.sameFiles {db : Database} {d d' : Disk String Bytes} (h : Intact hash db d)
    (hk : Kept hash d d') : SameFiles db d d' := by
  intro a ha
  obtain ⟨content, _, hs⟩ := h.stored a ha
  exact (hk.live _ (h.destination a ha) _ hs.1).trans hs.1.symm

/-- Rows and files agree, and the call under way keeps them so, leaves the stored files alone
    and inserts one artifact at most. -/
structure Machine.Grows (hash : Sha256) (m : Machine) : Prop where
  intact : Intact hash m.db m.disk
  call : ∀ c, m.holder = some c → c.program.Meets (StoreSem True c.content)
    (fun st => Intact hash m.db st.disk ∧ SameFiles m.db m.disk st.disk)
    (fun r st => ∀ a, r = .ok a → Intact hash st.db st.disk ∧
      Grown m.db.toTables st.db.toTables) ⟨c.pending, m.disk⟩

/-- **What a step of the store leaves.** -/
theorem Machine.Grows.step (h : m.Grows hash) (hs : Machine.Step hash stateDir m m') :
    m'.Grows hash ∧ Grown m.db.toTables m'.db.toTables ∧ SameFiles m.db m.disk m'.disk := by
  have hfree : ∀ {db : Database} {disk : Disk String Bytes}, Intact hash db disk →
      Machine.Grows hash ⟨db, disk, none⟩ := by
    intro db disk hi
    refine ⟨hi, fun c hc => ?_⟩
    cases hc
  have hsame : ∀ {db : Database} {d : Disk String Bytes}, SameFiles db d d := fun _ _ => rfl
  cases hs with
  | @start p src content hm hs =>
    refine ⟨⟨h.intact, fun c hc => ?_⟩, .inl rfl, hsame⟩
    cases hc
    have hmeets : (ingestFile stateDir hash src).Meets (StoreSem True content) _ _
        ⟨m.db, m.disk⟩ := ingestFile_meets hs h.intact
    refine hmeets.mono (fun st hk => ⟨h.intact.kept hk, h.intact.sameFiles hk⟩)
      fun r st _ hr a ha => ?_
    subst ha
    cases content with
    | none =>
      obtain ⟨e, he⟩ := hr
      cases he
    | some content => exact ⟨Returned.intact hr h.intact, Returned.grown hr⟩
  | @operation p content db db' disk' program program' hm hstep =>
    have hmeets := (h.call _ hm).steps (.single hstep)
    obtain ⟨hi, hfiles⟩ := hmeets.start
    refine ⟨⟨hi, fun c hc => ?_⟩, .inl rfl, hfiles⟩
    cases hc
    refine hmeets.mono (fun st hst => ⟨hst.1, fun a ha => ?_⟩) fun r st _ hr => hr
    exact (hst.2 a ha).trans (hfiles a ha).symm
  | @commit p content db a hm =>
    obtain ⟨hi, hg⟩ := (h.call _ hm).2 _ rfl
    exact ⟨hfree hi, hg, hsame⟩
  | rollback | kill => exact ⟨hfree h.intact, .inl rfl, hsame⟩
  | crash hc =>
    refine ⟨hfree (h.intact.crash hc), .inl rfl, fun a ha => ?_⟩
    obtain ⟨content, _, hst⟩ := h.intact.stored a ha
    exact (hst.crash hc).1.trans hst.1.symm

theorem Machine.Initial.grows (h : m.Initial) : m.Grows hash where
  intact := (Machine.Initial.safe h).intact
  call c hc := by
    rw [h.idle] at hc
    cases hc

end Store

/-! ## 3. The service on one state directory -/

/-- The processes and their database, the stored files, the holder of the write lock, and what
    the adapter call of each process has read. -/
structure Deployment where
  world : World
  disk : Disk String Bytes
  holder : Option Holder
  read : Nat → Option (Option Bytes)

namespace Deployment

variable {β : Type} (s : Deployment)

/-- The store of the site. -/
def machine : Machine := ⟨s.world.db, s.disk, s.holder⟩

def withMachine (m : Machine) : Deployment :=
  { s with world := { s.world with db := m.db }, disk := m.disk, holder := m.holder }

/-- The adapter's answer to what the process has read is what it publishes. -/
def Answers (L : Library Bytes) : Label → Prop
  | .publish p records => ∃ target d bytes, s.world.phase p = .analysing target d ∧
      s.read p = some bytes ∧ accept (.ok (L.functionGraph bytes target.key)) = .ok records
  | .publishCatalog p records => ∃ bytes, s.read p = some bytes ∧
      accept (.ok (L.catalog bytes)) = .ok records
  | _ => True

/-- A new claim has read nothing. -/
def readAfter : Label → Nat → Option (Option Bytes)
  | .claim p => Function.update s.read p none
  | .claimCatalog p => Function.update s.read p none
  | _ => s.read

end Deployment

section Deployment

variable (L : Library Bytes) (hash : Sha256) (stateDir : String)

/-- The steps of the service. A machine that goes down takes its processes with it: they leave. -/
inductive Deployment.Step : Deployment → Label → Deployment → Prop where
  /-- `ingest_file`, inside its transaction. -/
  | store {s : Deployment} {m : Machine} (h : Machine.Step hash stateDir s.machine m) :
      Deployment.Step s .silent (s.withMachine m)
  /-- Everything else. It inserts no artifact, and writes only where nobody holds the lock. -/
  | index {s : Deployment} {l : Label} {w : World} (h : World.Step s.world l w)
      (hn : w.db.artifacts.length = s.world.db.artifacts.length)
      (hl : w.db = s.world.db ∨ s.holder = none) (ha : s.Answers L l) :
      Deployment.Step s l { s with world := w, read := s.readAfter l }
  /-- The adapter reads the stored file by its path. -/
  | adapter {s : Deployment} {p : Nat} {a : Artifact} (ha : (s.world.phase p).artifact = some a)
      (hc : (s.world.phase p).claim.isSome) :
      Deployment.Step s .silent { s with
        read := Function.update s.read p (some ((s.disk.live a.storedPath).map (·.content))) }

structure Deployment.Initial (s : Deployment) : Prop where
  world : s.world.Initial
  flushed : ∀ path, s.disk.Flushed path
  idle : s.holder = none
  unread : ∀ p, s.read p = none

def Deployment.Reachable (s : Deployment) : Prop :=
  ∃ s₀ : Deployment, s₀.Initial ∧
    Relation.ReflTransGen (fun s s' => ∃ l, Deployment.Step L hash stateDir s l s') s₀ s

/-! ## 4. The invariant -/

/-- **Rows from bytes**: every relation and every source location of an artifact is one that the
    adapter reads off bytes with the artifact's hash. -/
structure FromBytes (t : Tables) : Prop where
  relations : ∀ r ∈ t.relations, ∃ a ∈ t.artifacts, ∃ content key,
    hash.hex content = a.contentSha256 ∧
      ∃ q ∈ relationRecords (L.functionGraph (some content) key), r.Written a key q
  sources : ∀ x ∈ t.sourceLocations, ∃ a ∈ t.artifacts, ∃ content key,
    hash.hex content = a.contentSha256 ∧
      ∃ q ∈ sourceRecords (L.functionGraph (some content) key), x.Written a q

structure Deployment.Safe (s : Deployment) : Prop where
  store : s.machine.Grows hash
  held : ∀ p a, (s.world.phase p).artifact = some a →
    a.origin ∈ s.world.db.artifacts.map Artifact.origin
  read : ∀ p bytes, s.read p = some bytes → (s.world.phase p).claim.isSome →
    ∀ a, (s.world.phase p).artifact = some a →
      ∃ content, bytes = some content ∧ hash.hex content = a.contentSha256
  identified : Identified s.world.db.toTables
  targets : ∀ p target, (s.world.phase p).target = some target → target.Named
  rows : FromBytes L hash s.world.db.toTables

variable {L hash stateDir} {s s' : Deployment} {t t' : Tables}

theorem FromBytes.grown (h : FromBytes L hash t) (hg : Grown t t') : FromBytes L hash t' := by
  have hrows : t'.relations = t.relations ∧ t'.sourceLocations = t.sourceLocations := by
    rcases hg with rfl | ⟨b, rfl⟩
    · exact ⟨rfl, rfl⟩
    · exact ⟨rfl, rfl⟩
  constructor
  · rw [hrows.1]
    intro r hr
    obtain ⟨a, ha, hrest⟩ := h.relations r hr
    exact ⟨a, hg.artifacts a ha, hrest⟩
  · rw [hrows.2]
    intro x hx
    obtain ⟨a, ha, hrest⟩ := h.sources x hx
    exact ⟨a, hg.artifacts a ha, hrest⟩

/-- **What is stored under the path of an artifact that a process holds has its hash.** -/
theorem Intact.held {db : Database} {disk : Disk String Bytes} (h : Intact hash db disk)
    {a : Artifact} (ha : a.origin ∈ db.artifacts.map Artifact.origin) :
    ∃ content, (disk.live a.storedPath).map (·.content) = some content ∧
      hash.hex content = a.contentSha256 := by
  obtain ⟨b, hb, _, hsha, hpath⟩ := origin_row ha
  obtain ⟨content, hc, hs⟩ := h.stored b hb
  rw [← hpath, ← hsha]
  exact ⟨content, by rw [hs.1]; rfl, hc⟩

/-- An artifact whose id is made of its hash. -/
theorem Sha256.wellNamed {a : Artifact} (hid : a.id = "artifact:" ++ shortHash a.contentSha256)
    {content : Bytes} (hsha : hash.hex content = a.contentSha256) : a.WellNamed := by
  refine ⟨hid, ?_⟩
  rw [← hsha, shortHash, String.length_ofList, List.length_take, String.length_toList, hash.length]
  omega

/-- **A store step keeps the invariant.** -/
theorem Deployment.Safe.storeStep (h : s.Safe L hash) {m : Machine}
    (hs : Machine.Step hash stateDir s.machine m) : (s.withMachine m).Safe L hash := by
  obtain ⟨hstore, hg, _⟩ := h.store.step hs
  refine ⟨hstore, fun q b hb => ?_, h.read, ?_, h.targets, h.rows.grown hg⟩
  · obtain ⟨row, hrow, he⟩ := List.mem_map.mp (h.held q b hb)
    exact List.mem_map.mpr ⟨row, hg.artifacts row hrow, he⟩
  · have hnamed : ∀ a ∈ m.db.artifacts, a.WellNamed := by
      intro a ha
      obtain ⟨content, hsha, _⟩ := hstore.intact.stored a ha
      exact Sha256.wellNamed (hstore.intact.named a ha) hsha
    refine h.identified.of_artifacts hnamed (fun a ha => ⟨a, hg.artifacts a ha, rfl, rfl⟩) ?_
    rcases hg with hsame | ⟨a, hone⟩
    · exact congrArg Tables.entities hsame
    · exact (congrArg Tables.entities hone).trans rfl

/-- Rows and files stay together where only other columns are written. -/
theorem Intact.inserted {db db' : Database} {disk : Disk String Bytes} {R : Relation → Prop}
    {S : SourceLocation → Prop} (h : Intact hash db disk)
    (hw : Inserted R S db.toTables db'.toTables) : Intact hash db' disk := by
  have hback : ∀ a' ∈ db'.artifacts, ∃ a ∈ db.artifacts, a.id = a'.id ∧
      a.investigationId = a'.investigationId ∧ a.contentSha256 = a'.contentSha256 ∧
      a.storedPath = a'.storedPath := by
    intro a' ha'
    have hm : a'.origin ∈ db.artifacts.map Artifact.origin :=
      hw.origins ▸ List.mem_map_of_mem ha'
    obtain ⟨a, ha, he⟩ := List.mem_map.mp hm
    simp only [Artifact.origin, Prod.mk.injEq] at he
    exact ⟨a, ha, he.1, he.2.1, he.2.2.1, he.2.2.2⟩
  refine ⟨fun a' ha' => ?_, fun a' ha' => ?_, fun a' ha' => ?_, fun a' ha' => ?_, h.flushed⟩
  · obtain ⟨a, ha, hid, _, hsha, _⟩ := hback a' ha'
    rw [← hid, ← hsha]
    exact h.named a ha
  · obtain ⟨a, ha, _, _, hsha, hpath⟩ := hback a' ha'
    rw [← hsha, ← hpath]
    exact h.stored a ha
  · obtain ⟨a, ha, _, _, _, hpath⟩ := hback a' ha'
    rw [← hpath]
    exact h.destination a ha
  · obtain ⟨a, ha, _, hinv, _, _⟩ := hback a' ha'
    rw [← hinv, hw.investigation (List.ne_nil_of_mem ha)]
    exact h.investigation a ha

/-- **What is published next is read off the artifact's bytes.** -/
theorem Deployment.Safe.publishes (h : s.Safe L hash) {l : Label} (ha : s.Answers L l) {target : Target}
    {records : List Record} (hp : s.world.Publishes l target records) :
    ∃ content, hash.hex content = target.artifact.contentSha256 ∧
      records = L.functionGraph (some content) target.key := by
  obtain ⟨p, d, rfl, hphase⟩ := hp
  obtain ⟨target', d', bytes, hphase', hread, hacc⟩ := ha
  obtain ⟨rfl, rfl⟩ : target' = target ∧ d' = d := by
    have he := hphase'.symm.trans hphase
    injection he with h1 h2
    exact ⟨h1, h2⟩
  obtain ⟨content, rfl, hsha⟩ := h.read p bytes hread (by rw [hphase]; rfl) _
    (by rw [hphase]; rfl)
  exact ⟨content, hsha, (Except.ok.inj (accept_ok hacc).1).symm⟩

theorem FromBytes.inserted {w : World} {l : Label} (h : s.Safe L hash) (ha : s.Answers L l)
    (hw : Inserted (s.world.NewRelation l) (s.world.NewSource l) s.world.db.toTables
      w.db.toTables) (hheld : ∀ target records, s.world.Publishes l target records →
        target.artifact.origin ∈ s.world.db.artifacts.map Artifact.origin) :
    FromBytes L hash w.db.toTables := by
  -- a row of the tables before stays, with its name and its hash
  have hkeep : ∀ {a : Artifact}, a.origin ∈ s.world.db.artifacts.map Artifact.origin →
      ∃ b ∈ w.db.artifacts, b.id = a.id ∧ b.contentSha256 = a.contentSha256 := by
    intro a hm
    rw [← hw.origins] at hm
    obtain ⟨b, hb, hid, hsha, _⟩ := origin_row hm
    exact ⟨b, hb, hid, hsha⟩
  constructor
  · intro r hr
    rcases hw.relations r hr with hr | ⟨target, records, hp, q, hq, hwritten⟩
    · obtain ⟨a, hm, content, key, hsha, q, hq, hwritten⟩ := h.rows.relations r hr
      obtain ⟨b, hb, hbid, hbsha⟩ := hkeep (List.mem_map_of_mem hm)
      exact ⟨b, hb, content, key, hsha.trans hbsha.symm, q, hq, hwritten.congr hbid hbsha⟩
    · obtain ⟨content, hsha, rfl⟩ := h.publishes ha hp
      obtain ⟨b, hb, hbid, hbsha⟩ := hkeep (hheld target _ hp)
      exact ⟨b, hb, content, target.key, hsha.trans hbsha.symm, q, hq, hwritten.congr hbid hbsha⟩
  · intro x hx
    rcases hw.sources x hx with hx | ⟨target, records, hp, q, hq, hwritten⟩
    · obtain ⟨a, hm, content, key, hsha, q, hq, hwritten⟩ := h.rows.sources x hx
      obtain ⟨b, hb, hbid, hbsha⟩ := hkeep (List.mem_map_of_mem hm)
      exact ⟨b, hb, content, key, hsha.trans hbsha.symm, q, hq, hwritten.congr hbid hbsha⟩
    · obtain ⟨content, hsha, rfl⟩ := h.publishes ha hp
      obtain ⟨b, hb, hbid, hbsha⟩ := hkeep (hheld target _ hp)
      exact ⟨b, hb, content, target.key, hsha.trans hbsha.symm, q, hq, hwritten.congr hbid hbsha⟩

theorem Deployment.readAfter_some {l : Label} {q : Nat} {bytes : Option Bytes}
    (h : s.readAfter l q = some bytes) :
    s.read q = some bytes ∧ l ≠ .claim q ∧ l ≠ .claimCatalog q := by
  have hother : ∀ {p : Nat}, Function.update s.read p none q = some bytes →
      p ≠ q ∧ s.read q = some bytes := by
    intro p hp
    by_cases hq : p = q
    · rw [← hq, Function.update_self] at hp
      cases hp
    · rw [Function.update_of_ne (Ne.symm hq)] at hp
      exact ⟨hq, hp⟩
  cases l with
  | claim p =>
    obtain ⟨hp, hread⟩ := hother h
    exact ⟨hread, fun he => hp (Label.claim.inj he), Label.noConfusion⟩
  | claimCatalog p =>
    obtain ⟨hp, hread⟩ := hother h
    exact ⟨hread, Label.noConfusion, fun he => hp (Label.claimCatalog.inj he)⟩
  | silent | publish | fail | publishCatalog | failCatalog =>
    exact ⟨h, Label.noConfusion, Label.noConfusion⟩

/-- What a step relies on holds of the states reached: a stream that is accepted names its
    entities as the adapter does. -/
theorem Deployment.Safe.known (h : s.Safe L hash) {l : Label} (ha : s.Answers L l) :
    s.world.Known l := by
  refine ⟨h.identified, h.held, h.targets, fun target records hp => ?_⟩
  obtain ⟨p, d, rfl, hphase⟩ := hp
  obtain ⟨target', d', bytes, hphase', _, hacc⟩ := ha
  obtain ⟨rfl, rfl⟩ : target' = target ∧ d' = d := by
    have he := hphase'.symm.trans hphase
    injection he with h1 h2
    exact ⟨h1, h2⟩
  obtain ⟨hrecords, hnone⟩ := accept_ok hacc
  have hadapter : AdapterAnswers target' (.ok (L.functionGraph bytes target'.key)) := by
    intro rs hrs
    obtain rfl := Except.ok.inj hrs
    unfold Library.functionGraph
    split
    · exact .inl ⟨_, rfl⟩
    · exact .inr ⟨_, _, rfl⟩
  exact hadapter.namesKind hrecords hnone

/-- **A step of a process keeps the invariant.** -/
theorem Deployment.Safe.index (h : s.Safe L hash) {l : Label} {w : World} (hs : World.Step s.world l w)
    (hn : w.db.artifacts.length = s.world.db.artifacts.length)
    (hl : w.db = s.world.db ∨ s.holder = none) (ha : s.Answers L l) :
    Deployment.Safe L hash { s with world := w, read := s.readAfter l } := by
  have hk := h.known ha
  have hw := hs.written hk hn
  refine ⟨⟨h.store.intact.inserted hw, fun c hc => ?_⟩, fun q a hq => ?_,
    fun q bytes hread hclaim a hq => ?_, hs.identified hk, fun q target => hs.target hk,
    FromBytes.inserted h ha hw fun target records hp => ?_⟩
  · rcases hl with hsame | hnone
    · have hcall := h.store.call c hc
      unfold Deployment.machine at hcall
      rw [← hsame] at hcall
      exact hcall
    · have hc : s.holder = some c := hc
      rw [hnone] at hc
      cases hc
  · show a.origin ∈ w.db.artifacts.map Artifact.origin
    rw [hw.origins]
    rcases hs.artifact hq with hold | ⟨hm, _⟩
    · exact h.held q a hold
    · exact List.mem_map_of_mem hm
  · obtain ⟨hread, hnot, hnot'⟩ := Deployment.readAfter_some hread
    rcases hs.phase q with hsame | hnone | hclaims | hclaims
    · have hclaim : (w.phase q).claim.isSome := hclaim
      have hq : (w.phase q).artifact = some a := hq
      rw [hsame] at hclaim hq
      exact h.read q bytes hread hclaim a hq
    · have hclaim : (w.phase q).claim.isSome := hclaim
      rw [hnone] at hclaim
      cases hclaim
    · exact absurd hclaims hnot
    · exact absurd hclaims hnot'
  · obtain ⟨p, d, _, hphase⟩ := hp
    exact h.held p target.artifact (by rw [hphase]; rfl)

/-- **An adapter call keeps the invariant**: it reads bytes with the artifact's hash. -/
theorem Deployment.Safe.adapter (h : s.Safe L hash) {p : Nat} {a : Artifact}
    (ha : (s.world.phase p).artifact = some a) :
    Deployment.Safe L hash { s with
      read := Function.update s.read p (some ((s.disk.live a.storedPath).map (·.content))) } := by
  refine ⟨h.store, h.held, fun q bytes hread hclaim b hb => ?_, h.identified, h.targets, h.rows⟩
  by_cases hq : p = q
  · subst hq
    have hread : Function.update s.read p (some ((s.disk.live a.storedPath).map (·.content))) p =
        some bytes := hread
    rw [Function.update_self] at hread
    obtain rfl : a = b := Option.some.inj (ha.symm.trans hb)
    obtain ⟨content, hlive, hsha⟩ := h.store.intact.held (h.held p a ha)
    exact ⟨content, (Option.some.inj hread).symm.trans hlive, hsha⟩
  · have hread : Function.update s.read p (some ((s.disk.live a.storedPath).map (·.content))) q =
        some bytes := hread
    rw [Function.update_of_ne (Ne.symm hq)] at hread
    exact h.read q bytes hread hclaim b hb

theorem Deployment.Initial.safe (h : s.Initial) : s.Safe L hash where
  store := Machine.Initial.grows ⟨h.world.artifacts, h.flushed, h.idle⟩
  held p a ha := by
    rw [h.world.idle p] at ha
    cases ha
  read p bytes hread := by
    rw [h.unread p] at hread
    cases hread
  identified := by
    constructor
    · rw [h.world.artifacts]
      exact fun a ha => absurd ha List.not_mem_nil
    · rw [h.world.entities]
      exact fun e he => absurd he List.not_mem_nil
    · rw [h.world.entities]
      exact fun e he => absurd he List.not_mem_nil
  targets p target ht := by
    rw [h.world.idle p] at ht
    cases ht
  rows := by
    constructor
    · rw [h.world.relations]
      exact fun r hr => absurd hr List.not_mem_nil
    · rw [h.world.sources]
      exact fun x hx => absurd hx List.not_mem_nil

theorem Deployment.Reachable.safe (h : s.Reachable L hash stateDir) : s.Safe L hash := by
  obtain ⟨s₀, h₀, hrun⟩ := h
  induction hrun with
  | refl => exact h₀.safe
  | tail _ hs ih =>
    obtain ⟨l, hs⟩ := hs
    cases hs with
    | store h => exact ih.storeStep h
    | index h hn hl ha => exact ih.index h hn hl ha
    | adapter ha _ => exact ih.adapter ha

end Deployment

/-! ## 5. Evidence comes from the artifact's bytes -/

section Evidence

variable (L : Library Bytes) (hash : Sha256) (stateDir : String)

/-- What a process publishes next is the adapter's answer on bytes with the artifact's hash. -/
structure Deployment.PublishesBytes (s : Deployment) (l : Label) : Prop where
  graphs : ∀ p records, l = .publish p records → ∃ target d content,
    s.world.phase p = .analysing target d ∧ hash.hex content = target.artifact.contentSha256 ∧
      records = L.functionGraph (some content) target.key
  catalogs : ∀ p records, l = .publishCatalog p records → ∃ a d content,
    s.world.phase p = .cataloging a d ∧ hash.hex content = a.contentSha256 ∧
      records = L.catalog (some content)

/-- `ingest_file` of the stored file of an artifact: it answers with that artifact and writes
    nothing, or it throws and writes nothing. -/
def Deployment.Reingests (s : Deployment) (a : Artifact) : Prop :=
  s.holder = none → ∀ src : Source, src.suffix ∈ artifactSuffixes → ∀ content,
    (s.disk.live a.storedPath).map (·.content) = some content → ∀ faulty r m,
      Machine.Call hash stateDir faulty src (some content) s.machine r m →
        m = s.machine ∧ (r = .ok (a, false) ∨ faulty ∧ ∃ e, r = .error e)

/-- **Evidence comes from the artifact's bytes**: over every interleaving of any number of
    processes that ingest, index, analyse and query, with adapter calls at any time between a
    claim and its publish, with processes killed and the machine going down. -/
theorem evidence_from_bytes {s s' : Deployment} {l : Label} (h : s.Reachable L hash stateDir)
    (hs : Deployment.Step L hash stateDir s l s') :
    FromBytes L hash s'.world.db.toTables ∧ s.PublishesBytes L hash l ∧
      ∀ a ∈ s.world.db.artifacts, s.Reingests hash stateDir a := by
  have hsafe := h.safe
  obtain ⟨s₀, h₀, hrun⟩ := h
  have hafter : s'.Safe L hash := Deployment.Reachable.safe ⟨s₀, h₀, hrun.tail ⟨l, hs⟩⟩
  refine ⟨hafter.rows, ?_, fun a ha hidle src hsrc content hlive faulty r m hcall => ?_⟩
  · cases hs with
    | store | adapter => exact ⟨fun _ _ => Label.noConfusion, fun _ _ => Label.noConfusion⟩
    | index hstep _ _ hans =>
      constructor
      · rintro p records rfl
        obtain ⟨target, d, bytes, hphase, hread, hacc⟩ := hans
        obtain ⟨content, hsha, hrecords⟩ := hsafe.publishes
          (l := .publish p records) ⟨target, d, bytes, hphase, hread, hacc⟩ ⟨p, d, rfl, hphase⟩
        exact ⟨target, d, content, hphase, hsha, hrecords⟩
      · rintro p records rfl
        obtain ⟨bytes, hread, hacc⟩ := hans
        cases hstep with
        | publishCatalog hp =>
          obtain ⟨content, rfl, hsha⟩ := hsafe.read p bytes hread (by rw [hp]; rfl) _
            (by rw [hp]; rfl)
          exact ⟨_, _, content, hp, hsha, (Except.ok.inj (accept_ok hacc).1).symm⟩
  · obtain ⟨content', hlive', hsha⟩ := hsafe.store.intact.held (List.mem_map_of_mem ha)
    obtain rfl : content' = content := Option.some.inj (hlive'.symm.trans hlive)
    exact hcall.stored hsafe.store.intact hidle hsrc ha hsha.symm

end Evidence

namespace Filed

open Scenario (after stream records)

/-- Every file holds the module of System.lean. -/
def library : Library Bytes := ⟨fun _ => .ok Scenario.module, fun _ => Collision.tree⟩

def initial : Deployment :=
  ⟨{ db := EmptyFile.initial.db, now := 1, issued := [], claims := [], phase := fun _ => .idle },
    EmptyFile.initial.disk, none, fun _ => none⟩

def row : Artifact := storedArtifact (EmptyFile.sha256.hex []) "investigation:i" EmptyFile.source

def stored : Deployment := initial.withMachine EmptyFile.ingested

/-- The process `0` has claimed the catalog and read the file. -/
def cataloging : Deployment :=
  { stored with
    world :=
      { (stored.world.move 0 (.ingesting row)).move 0 (.cataloging row (Sample.claimDraw "c" "c" 1)) with
        db := after (claimCatalog noFaults (Sample.claimDraw "c" "c" 1) row .catalog stored.world.db)
        issued := ["c"], claims := [(row.id, "c")] }
    read := Function.update (Function.update stored.read 0 none) 0 (some (some [])) }

def catalogued : Deployment :=
  { cataloging with
    world := { cataloging.world.move 0 .idle with
      db := after (publishCatalog noFaults row (Sample.claimDraw "c" "c" 1).runId Scenario.moduleRecord records 2
        cataloging.world.db) } }

def handle : String := entityId row (functionLocal "f0")

/-- `f0` as the process `1` reads it. -/
def target : Target :=
  ⟨(catalogued.world.db.entity handle).getD (Sample.record.entityRow row),
    (catalogued.world.db.artifact row.id).getD row⟩

/-- The process `1` has claimed `f0` and read the file. -/
def analysing : Deployment :=
  { catalogued with
    world := { (catalogued.world.move 1 (.entered target)).move 1
        (.analysing target (Sample.claimDraw "a" "a" 1)) with
      db := after (claimFunction noFaults (Sample.claimDraw "a" "a" 1) target catalogued.world.db)
      issued := ["a", "c"] }
    read := Function.update (Function.update catalogued.read 1 none) 1 (some (some [])) }

/-- The publish of `f0`. -/
def publish : Publish :=
  Publish.of target (Sample.claimDraw "a" "a" 1).runId "a" ⟨fun _ => 2, 2⟩ stream

def publishedDb : Database := after (publish.exec noFaults analysing.world.db)

def published : Deployment :=
  { analysing with world := { analysing.world.move 1 .idle with db := publishedDb } }

theorem publish_exec : publish.exec noFaults analysing.world.db = .ok publishedDb := by
  have hok : (publish.exec noFaults analysing.world.db).toBool = true := by decide +kernel
  unfold publishedDb
  generalize publish.exec noFaults analysing.world.db = result at hok ⊢
  cases result with
  | error e => cases hok
  | ok db => rfl

abbrev Step : Deployment → Label → Deployment → Prop := Deployment.Step library EmptyFile.sha256 "/state"

/-- Steps of the store alone. -/
theorem store_run {s : Deployment} {m : Machine}
    (h : Relation.ReflTransGen (Machine.Step EmptyFile.sha256 "/state") s.machine m) :
    Relation.ReflTransGen (fun s s' => ∃ l, Step s l s') s (s.withMachine m) := by
  induction h with
  | refl => exact .refl
  | tail _ hs ih => exact ih.tail ⟨.silent, .store (s := s.withMachine _) hs⟩

theorem analysing_reachable : analysing.Reachable library EmptyFile.sha256 "/state" := by
  have hinitial : initial.Initial := by
    refine ⟨⟨rfl, rfl, rfl, rfl, rfl, fun _ => rfl⟩, fun path file hf => ?_, rfl, fun _ => rfl⟩
    rcases List.mem_singleton.mp hf with h
    cases h
  have hcall : Machine.Call EmptyFile.sha256 "/state" False EmptyFile.source (some [])
      EmptyFile.initial (.ok (row, true)) EmptyFile.ingested :=
    .returned (eval_steps (R := StoreSem False (some [])) (fun s op => Or.inl ⟨"u", rfl⟩)
      (ingestFile "/state" EmptyFile.sha256 EmptyFile.source)
      ⟨EmptyFile.initial.db, EmptyFile.initial.disk⟩)
  have hstored := store_run (s := initial) (hcall.run rfl (by decide))
  have hingest : World.Step stored.world .silent (stored.world.move 0 (.ingesting row)) :=
    .ingest rfl (List.mem_singleton.mpr rfl)
  have hclaim : World.Step (stored.world.move 0 (.ingesting row)) (.claimCatalog 0)
      cataloging.world :=
    @World.Step.claimCatalog (stored.world.move 0 (.ingesting row)) 0 noFaults
      (Sample.claimDraw "c" "c" 1) row .catalog _ rfl ⟨List.not_mem_nil, Nat.le_refl 1, rfl⟩ rfl
  have hcatalog : World.Step cataloging.world (.publishCatalog 0 records) catalogued.world :=
    @World.Step.publishCatalog cataloging.world 0 noFaults (Sample.claimDraw "c" "c" 1) row
      Scenario.moduleRecord records 2 _ rfl rfl
  have henter : World.Step catalogued.world .silent (catalogued.world.move 1 (.entered target)) :=
    @World.Step.enter catalogued.world 1 handle false target rfl rfl
  have hfunction : World.Step (catalogued.world.move 1 (.entered target)) (.claim 1)
      analysing.world :=
    @World.Step.claim (catalogued.world.move 1 (.entered target)) 1 noFaults
      (Sample.claimDraw "a" "a" 1) target _ rfl ⟨by decide, Nat.le_refl 1, rfl⟩ rfl
  -- the process `0` catalogs the artifact
  have h₁ : Step stored .silent { stored with world := stored.world.move 0 (.ingesting row) } :=
    .index hingest rfl (.inl rfl) trivial
  have h₂ : Step { stored with world := stored.world.move 0 (.ingesting row) } (.claimCatalog 0)
      { stored with world := cataloging.world, read := Function.update stored.read 0 none } :=
    .index hclaim rfl (.inr rfl) trivial
  have h₃ : Step { stored with world := cataloging.world, read := Function.update stored.read 0 none }
      .silent cataloging :=
    .adapter (s := { stored with world := cataloging.world,
                                 read := Function.update stored.read 0 none })
      (p := 0) (a := row) rfl rfl
  have h₄ : Step cataloging (.publishCatalog 0 records) catalogued :=
    .index hcatalog rfl (.inr rfl) ⟨some [], rfl, rfl⟩
  -- and the process `1` reads `f0`
  have h₅ : Step catalogued .silent
      { catalogued with world := catalogued.world.move 1 (.entered target) } :=
    .index henter rfl (.inl rfl) trivial
  have h₆ : Step { catalogued with world := catalogued.world.move 1 (.entered target) } (.claim 1)
      { catalogued with
        world := analysing.world, read := Function.update catalogued.read 1 none } :=
    .index hfunction rfl (.inr rfl) trivial
  have h₇ : Step { catalogued with
        world := analysing.world, read := Function.update catalogued.read 1 none }
      .silent analysing :=
    .adapter (s := { catalogued with world := analysing.world,
                                     read := Function.update catalogued.read 1 none })
      (p := 1) (a := target.artifact) rfl rfl
  exact ⟨initial, hinitial, ((((((hstored.tail ⟨_, h₁⟩).tail ⟨_, h₂⟩).tail ⟨_, h₃⟩).tail ⟨_, h₄⟩).tail
    ⟨_, h₅⟩).tail ⟨_, h₆⟩).tail ⟨_, h₇⟩⟩

end Filed

open Filed in
/-- The publish of an analysed function: its rows are read off the file that is stored. -/
theorem evidence_from_bytes_published :
    published.world.db.relations ≠ [] ∧
      FromBytes library EmptyFile.sha256 published.world.db.toTables ∧
      analysing.Reingests EmptyFile.sha256 "/state" target.artifact := by
  have hpublish : World.Step analysing.world (.publish 1 Scenario.stream) published.world :=
    @World.Step.publish analysing.world 1 noFaults (Sample.claimDraw "a" "a" 1) target
      ⟨fun _ => 2, 2⟩ Scenario.stream publishedDb rfl publish_exec
  have hkey : target.key = "f0" := by decide +kernel
  have hacc : accept (.ok (library.functionGraph (some []) target.key)) = .ok Scenario.stream := by
    rw [hkey]
    rfl
  have hstep : Filed.Step analysing (.publish 1 Scenario.stream) published :=
    .index hpublish (by decide +kernel) (.inr rfl) ⟨target, _, some [], rfl, rfl, hacc⟩
  obtain ⟨hrows, _, hagain⟩ := evidence_from_bytes library EmptyFile.sha256 "/state"
    analysing_reachable hstep
  exact ⟨by decide +kernel, hrows, hagain _ (by decide +kernel)⟩

end Irez
