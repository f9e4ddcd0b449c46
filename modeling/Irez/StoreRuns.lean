/-
  File:      Irez/StoreRuns.lean
  Subject:   The content store under any number of processes and crashes at any point: its
             rows and its files.

  `Service::ingest` runs `Store::ingest_file` inside an IMMEDIATE transaction, so one process
  at a time holds the write lock of the database. Its call goes one operation at a time; the
  process may be killed, or the machine go down, between any two.

  * `Intact` -- what a database and a disk have in common: every row's file is under its
    name, on the disk, with the content the row is hashed from;
  * `Kept` -- what a call may do to the disk: the files under final names stay;
    `ingestFile_meets`, a call keeps that at every operation, and what it returns with;
  * `Machine`, `Machine.Step` -- the store, the holder of the lock and the crashes;
    `Reachable.intact`, the invariant of every run;
  * `store_integrity` -- rows and files agree in every state reached, a second ingest of a
    content changes nothing, and a call that throws adds no row and changes no file under a
    final name. It is about the POSIX program, which flushes the directory of the file.
-/
import Irez.Store

open Irez.Basis

namespace Irez

open Program StoreProgram

variable {hash : Sha256}

/-! ## 1. Final names -/

/-- The names that stored files have in the end. -/
def IsDestination (hash : Sha256) (path : String) : Prop :=
  ∃ content, ∃ suffix ∈ artifactSuffixes, path = destination (hash.hex content) suffix

theorem Sha256.dot_not_mem (hash : Sha256) (content : Bytes) : '.' ∉ (hash.hex content).toList := by
  intro h
  have hd := hash.digits content '.' h
  revert hd
  decide

theorem count_dot_destination (hash : Sha256) (content : Bytes) {suffix : String}
    (hs : suffix ∈ artifactSuffixes) :
    (destination (hash.hex content) suffix).toList.count '.' = 1 := by
  have h0 : (hash.hex content).toList.count '.' = 0 :=
    List.count_eq_zero.mpr (hash.dot_not_mem content)
  have h1 : suffix.toList.count '.' = 1 := by
    revert suffix
    decide
  have h2 : "artifacts/llvm/".toList.count '.' = 0 := by decide
  rw [destination, String.toList_append, String.toList_append, List.count_append, List.count_append,
    h0, h1, h2]

/-- A temporary name is no final name. -/
theorem not_isDestination_temporary (content : Bytes) {suffix : String}
    (hs : suffix ∈ artifactSuffixes) (uuid : String) :
    ¬ IsDestination hash (temporary (destination (hash.hex content) suffix) uuid) := by
  rintro ⟨content', suffix', hs', he⟩
  have h := congrArg (fun s => s.toList.count '.') he
  have h1 := count_dot_destination hash content hs
  have h2 := count_dot_destination hash content' hs'
  have h3 : ".tmp-".toList.count '.' = 1 := by decide
  simp only [temporary, String.toList_append, List.count_append] at h h1 h2
  omega

/-! ## 2. Rows and files -/

structure Intact (hash : Sha256) (db : Database) (disk : Disk String Bytes) : Prop where
  named : ∀ a ∈ db.artifacts, a.id = "artifact:" ++ shortHash a.contentSha256
  stored : ∀ a ∈ db.artifacts, ∃ content, hash.hex content = a.contentSha256 ∧
    disk.Settled a.storedPath content
  destination : ∀ a ∈ db.artifacts, IsDestination hash a.storedPath
  investigation : ∀ a ∈ db.artifacts, db.investigation.map (·.id) = some a.investigationId
  flushed : ∀ path, IsDestination hash path → disk.Flushed path

/-- What a call may do to the disk. -/
structure Kept (hash : Sha256) (d d' : Disk String Bytes) : Prop where
  live : ∀ path, IsDestination hash path → ∀ file, d.live path = some file → d'.live path = some file
  settled : ∀ path, IsDestination hash path → ∀ content, d.Settled path content →
    d'.Settled path content
  flushed : (∀ path, IsDestination hash path → d.Flushed path) →
    ∀ path, IsDestination hash path → d'.Flushed path

section Kept

variable {d d' d'' : Disk String Bytes}

theorem Kept.refl (d : Disk String Bytes) : Kept hash d d :=
  ⟨fun _ _ _ h => h, fun _ _ _ h => h, fun h => h⟩

theorem Kept.trans (h : Kept hash d d') (h' : Kept hash d' d'') : Kept hash d d'' where
  live path hp file hf := h'.live path hp file (h.live path hp file hf)
  settled path hp content hc := h'.settled path hp content (h.settled path hp content hc)
  flushed hf := h'.flushed (h.flushed hf)

theorem Kept.of_sameAt (h : ∀ path, IsDestination hash path → Disk.SameAt d d' path) :
    Kept hash d d' where
  live path hp file hf := (h path hp).1.trans hf
  settled path hp content hc := ⟨(h path hp).1.trans hc.1, (h path hp).2.trans hc.2⟩
  flushed hf path hp := (h path hp).flushed (hf path hp)

/-- Nothing is done to a final name by an operation on another name. -/
theorem Kept.of_other {path : String} (hp : ¬ IsDestination hash path)
    (h : ∀ other, other ≠ path → Disk.SameAt d d' other) : Kept hash d d' :=
  .of_sameAt fun other ho => h other fun e => hp (e ▸ ho)

/-- A flushed file takes a final name that none has. -/
theorem Kept.rename {source target : String} {content : Bytes} (hs : ¬ IsDestination hash source)
    (hl : d.live source = some ⟨content, true⟩) (ht : d.live target = none) :
    Kept hash d (d.rename source target) where
  live path hp file hf := by
    have h1 : path ≠ source := fun e => hs (e ▸ hp)
    have h2 : path ≠ target := by
      rintro rfl
      rw [ht] at hf
      cases hf
    exact (Disk.sameAt_rename h1 h2).1.trans hf
  settled path hp content hc := by
    have h1 : path ≠ source := fun e => hs (e ▸ hp)
    have h2 : path ≠ target := by
      rintro rfl
      rw [hc.1] at ht
      cases ht
    have hsame := Disk.sameAt_rename (d := d) h1 h2
    exact ⟨hsame.1.trans hc.1, hsame.2.trans hc.2⟩
  flushed hf path hp := by
    have h1 : path ≠ source := fun e => hs (e ▸ hp)
    by_cases h2 : path = target
    · subst h2
      intro file hm
      rw [Disk.entries, Disk.live_rename h1.symm, Disk.earlier_rename h1.symm, hl] at hm
      rcases List.mem_cons.mp hm with he | hm
      · cases he
        rfl
      · exact hf path hp file hm
    · exact (Disk.sameAt_rename h1 h2).flushed (hf path hp)

theorem Kept.flushAll : Kept hash d d.flushAll where
  live _ _ _ hf := hf
  settled _ _ _ hc := ⟨hc.1, rfl⟩
  flushed hf path hp file hm := by
    rw [Disk.entries, Disk.flushAll, List.mem_singleton] at hm
    exact hf path hp file (List.mem_cons.mpr (Or.inl hm))

theorem Intact.kept {db : Database} (h : Intact hash db d) (hk : Kept hash d d') :
    Intact hash db d' where
  named := h.named
  stored a ha := by
    obtain ⟨content, hc, hs⟩ := h.stored a ha
    exact ⟨content, hc, hk.settled _ (h.destination a ha) content hs⟩
  destination := h.destination
  investigation := h.investigation
  flushed := hk.flushed h.flushed

/-- **A crash keeps rows and files together.** -/
theorem Intact.crash {db : Database} (h : Intact hash db d) (hc : d.Crash d') :
    Intact hash db d' where
  named := h.named
  stored a ha := by
    obtain ⟨content, hc', hs⟩ := h.stored a ha
    exact ⟨content, hc', hs.crash hc⟩
  destination := h.destination
  investigation := h.investigation
  flushed path _ := hc.flushed path

end Kept

/-! ## 3. A call, one operation after the other -/

/-- What a call leaves untouched until it inserts its row. -/
def Working (hash : Sha256) (s₀ s : StoreState) : Prop := s.db = s₀.db ∧ Kept hash s₀.disk s.disk

section Call

variable {faulty : Prop} {source : Option Bytes} {s₀ s : StoreState}

theorem Working.refl (s : StoreState) : Working hash s s := ⟨rfl, .refl _⟩

theorem Working.disk (h : Working hash s₀ s) {d : Disk String Bytes} (hk : Kept hash s.disk d) :
    Working hash s₀ { s with disk := d } := ⟨h.1, h.2.trans hk⟩

/-- An operation on a name that is not final. -/
theorem Working.other (h : Working hash s₀ s) {path : String} (hp : ¬ IsDestination hash path)
    {d : Disk String Bytes} (ho : ∀ other, other ≠ path → Disk.SameAt s.disk d other) :
    Working hash s₀ { s with disk := d } := h.disk (.of_other hp ho)

theorem select_meets {α : Type} {find : Tables → α} {inv : StoreState → Prop} (hinv : inv s) :
    (select find).Meets (StoreSem faulty source) inv
      (fun r s' => s' = s ∧ (r = .ok (find s.db.toTables) ∨ faulty ∧ ∃ e, r = .error e)) s := by
  refine meets_perform hinv fun a s' h => ?_
  rcases h with ⟨_, h⟩ | ⟨hf, h⟩
  · cases h
    exact meets_pure hinv ⟨rfl, Or.inl rfl⟩
  · cases h with
    | query e => exact meets_fail hinv ⟨rfl, Or.inr ⟨hf, e, rfl⟩⟩

theorem remove_meets {path : String} (hp : ¬ IsDestination hash path) (hw : Working hash s₀ s) :
    (StoreProgram.remove path).Meets (StoreSem faulty source) (Working hash s₀)
      (fun _ s' => s' = s ∨ s' = { s with disk := s.disk.remove path }) s := by
  refine meets_perform hw fun a s' h => ?_
  rcases h with ⟨_, h⟩ | ⟨_, h⟩
  · cases h
    exact meets_pure (hw.other hp fun _ => Disk.sameAt_relink) (Or.inr rfl)
  · cases h
    exact meets_fail hw (Or.inl rfl)

/-- A call that discards its temporary file throws. -/
theorem discard_meets {path message : String} (hp : ¬ IsDestination hash path)
    (hw : Working hash s₀ s) :
    (discard path message).Meets (StoreSem faulty source) (Working hash s₀)
      (fun r _ => ∀ a, r ≠ .ok a) s :=
  (remove_meets hp hw).bind (fun _ _ hw' _ => meets_fail hw' fun _ h => by cases h)
    fun _ _ _ _ _ h => by cases h

theorem require_meets {ok : Bool} {otherwise : StoreProgram Unit} {inv : StoreState → Prop}
    {post : Except Thrown Unit → StoreState → Prop} (hinv : inv s)
    (hok : ok = true → post (.ok ()) s)
    (h : ok = false → otherwise.Meets (StoreSem faulty source) inv post s) :
    (require ok otherwise).Meets (StoreSem faulty source) inv post s := by
  cases ok with
  | true => exact meets_pure hinv (hok rfl)
  | false => exact h rfl

/-- A temporary file that is written is on the disk, with its content. -/
theorem writeTemporary_meets {path : String} {content : Bytes} (hp : ¬ IsDestination hash path)
    (hw : Working hash s₀ s) :
    (writeTemporary path content).Meets (StoreSem faulty source) (Working hash s₀)
      (fun r s' => ∀ a, r = .ok a → s'.disk.live path = some ⟨content, true⟩) s := by
  have hthrow : ∀ (e : Thrown) (s' : StoreState) (a : Unit), Except.error e = .ok a →
      s'.disk.live path = some ⟨content, true⟩ := fun _ _ _ h => by cases h
  refine meets_perform hw fun created s₁ h₁ => ?_
  rcases h₁ with ⟨_, h₁⟩ | ⟨_, h₁⟩
  · cases h₁
    have hw₁ : Working hash s₀ { s with disk := s.disk.create path [] } :=
      hw.other hp fun _ => Disk.sameAt_relink
    refine meets_perform hw₁ fun written s₂ h₂ => ?_
    rcases h₂ with ⟨_, h₂⟩ | ⟨_, h₂⟩
    · cases h₂
      have hw₂ : Working hash s₀ { s with disk := (s.disk.create path []).write path content } :=
        hw₁.other hp fun _ => Disk.sameAt_rewrite
      refine meets_perform hw₂ fun flushed s₃ h₃ => ?_
      rcases h₃ with ⟨_, h₃⟩ | ⟨_, h₃⟩
      · cases h₃
        have hl : ((s.disk.create path []).write path content).live path =
            some ⟨content, false⟩ := Function.update_self path _ _
        exact meets_pure (hw₂.other hp fun _ => Disk.sameAt_flush) fun _ _ => Disk.live_flush hl
      · cases h₃
        exact (discard_meets hp hw₂).mono (fun _ h => h) fun r _ _ h a ha => absurd ha (h a)
    · cases h₂
      exact meets_fail (hw₁.other hp fun _ => Disk.sameAt_rewrite) (hthrow _ _)
  · cases h₁
    exact meets_fail hw (hthrow _ _)

theorem existsFile_meets {path : String} {inv : StoreState → Prop} (hinv : inv s) :
    (existsFile path).Meets (StoreSem faulty source) inv
      (fun r s' => s' = s ∧ ∀ b, r = .ok b → b = (s.disk.live path).isSome) s := by
  refine meets_perform hinv fun a s' h => ?_
  rcases h with ⟨_, h⟩ | ⟨_, h⟩
  · cases h
    exact meets_pure hinv ⟨rfl, fun b hb => by cases hb; rfl⟩
  · cases h
    exact meets_fail hinv ⟨rfl, fun b hb => by cases hb⟩

/-- The file that has the final name has the content, and is on the disk. -/
theorem compareFile_meets {temporary target : String} {content : Bytes}
    (ht : ¬ IsDestination hash temporary) (hd : IsDestination hash target)
    (hf : ∀ path, IsDestination hash path → s₀.disk.Flushed path) (hw : Working hash s₀ s) :
    (compareFile temporary target content).Meets (StoreSem faulty source) (Working hash s₀)
      (fun r s' => ∀ a, r = .ok a → s'.disk.live target = some ⟨content, true⟩) s := by
  have hne : target ≠ temporary := fun e => ht (e ▸ hd)
  have hlive : (s.disk.live target).map (·.content) = some content →
      s.disk.live target = some ⟨content, true⟩ := by
    intro h
    obtain ⟨file, hl, rfl⟩ := Option.map_eq_some_iff.mp h
    have hflushed := hw.2.flushed hf target hd file (List.mem_cons.mpr (Or.inl hl.symm))
    rw [hl, ← hflushed]
  refine meets_perform hw fun prior s' h => ?_
  have hprior : s' = s ∧ (prior = some content → s.disk.live target = some ⟨content, true⟩) := by
    rcases h with ⟨_, h⟩ | ⟨_, h⟩
    · cases h
      exact ⟨rfl, hlive⟩
    · cases h
      exact ⟨rfl, fun h => by cases h⟩
  obtain ⟨rfl, hprior⟩ := hprior
  have hreq : (require (prior = some content)
      (discard temporary "artifact destination exists with different content")).Meets
      (StoreSem faulty source) (Working hash s₀)
      (fun r s'' => ∀ a, r = .ok a → s'' = s' ∧ prior = some content) s' :=
    require_meets hw (fun h _ _ => ⟨rfl, of_decide_eq_true h⟩) fun _ =>
      (discard_meets ht hw).mono (fun _ h => h) fun r _ _ h a ha => absurd ha (h a)
  refine hreq.bind (fun a s'' hw' h => ?_) fun _ _ _ _ _ h => by cases h
  obtain ⟨rfl, hp⟩ := h a rfl
  refine (remove_meets ht hw').mono (fun _ h => h) fun r s₃ _ h _ _ => ?_
  rcases h with rfl | rfl
  · exact hprior hp
  · exact (Disk.sameAt_relink hne).1.trans (hprior hp)

/-- The temporary file takes the final name, or a file with its content has it. -/
theorem compareOrRename_meets {temporary target : String} {content : Bytes}
    (ht : ¬ IsDestination hash temporary) (hd : IsDestination hash target)
    (hf : ∀ path, IsDestination hash path → s₀.disk.Flushed path) (hw : Working hash s₀ s)
    (hl : s.disk.live temporary = some ⟨content, true⟩) :
    (compareOrRename temporary target content).Meets (StoreSem faulty source) (Working hash s₀)
      (fun r s' => ∀ a, r = .ok a → s'.disk.live target = some ⟨content, true⟩) s := by
  refine (existsFile_meets hw).bind (fun found s' hw' h => ?_) fun _ _ _ _ _ h => by cases h
  obtain ⟨rfl, h⟩ := h
  have hfound := h found rfl
  cases found with
  | true => exact compareFile_meets ht hd hf hw
  | false =>
    have hnone : s'.disk.live target = none := by simpa using hfound.symm
    refine meets_perform hw fun error s'' h' => ?_
    rcases h' with ⟨_, h'⟩ | ⟨_, h'⟩
    · cases h'
      have hne : temporary ≠ target := fun e => ht (e ▸ hd)
      exact meets_pure (hw.disk (.rename ht hl hnone)) fun _ _ => (Disk.live_rename hne).trans hl
    · cases h'
      exact (discard_meets ht hw).mono (fun _ h => h) fun r _ _ h a ha => absurd ha (h a)

/-- **A published file is on the disk under its final name.** -/
theorem publishFile_meets {content : Bytes} {suffix : String} (hsuffix : suffix ∈ artifactSuffixes)
    (hf : ∀ path, IsDestination hash path → s₀.disk.Flushed path) (hw : Working hash s₀ s) :
    (publishFile (destination (hash.hex content) suffix) content).Meets (StoreSem faulty source)
      (Working hash s₀)
      (fun r s' => ∀ a, r = .ok a →
        s'.disk.Settled (destination (hash.hex content) suffix) content) s := by
  have hd : IsDestination hash (destination (hash.hex content) suffix) := ⟨content, suffix, hsuffix, rfl⟩
  refine meets_perform hw fun uuid s₁ h₁ => ?_
  have hs₁ : s₁ = s := by
    rcases h₁ with ⟨_, h₁⟩ | ⟨_, h₁⟩
    · cases h₁
      rfl
    · cases h₁
  subst hs₁
  have ht : ¬ IsDestination hash (temporary (destination (hash.hex content) suffix) uuid) :=
    not_isDestination_temporary content hsuffix uuid
  refine (writeTemporary_meets ht hw).bind (fun a s₂ hw₂ hl => ?_) fun _ _ _ _ _ h => by cases h
  refine (compareOrRename_meets ht hd hf hw₂ (hl a rfl)).bind (fun b s₃ hw₃ hl => ?_)
    fun _ _ _ _ _ h => by cases h
  refine meets_perform hw₃ fun flushed s₄ h₄ => ?_
  rcases h₄ with ⟨_, h₄⟩ | ⟨_, h₄⟩
  · cases h₄
    exact meets_pure (hw₃.disk .flushAll) fun _ _ => ⟨hl b rfl, rfl⟩
  · cases h₄
    exact meets_fail hw₃ fun _ h => by cases h

theorem sem_insert {row : Artifact} {a : Except Thrown Unit} {s' : StoreState}
    (h : StoreSem faulty source s (.insert row) a s') :
    (∃ db, exec noFaults (.insertArtifact row) s.db = .ok db ∧ a = .ok () ∧
      s' = { s with db := db }) ∨ ((∃ e, a = .error e) ∧ s' = s) := by
  rcases h with ⟨_, h⟩ | ⟨_, h⟩
  · rw [answer] at h
    split at h
    · rename_i db hdb
      cases h
      exact Or.inl ⟨db, hdb, rfl, rfl⟩
    · rename_i e _
      cases h
      exact Or.inr ⟨⟨e, rfl⟩, rfl⟩
  · cases h with
    | insert _ e => exact Or.inr ⟨⟨e, rfl⟩, rfl⟩

/-- A row joins the others when its file is on the disk. -/
theorem Intact.insert {db db' : Database} {d : Disk String Bytes} {content : Bytes} {src : Source}
    {inv : Investigation} (h : Intact hash db d) (hsuffix : src.suffix ∈ artifactSuffixes)
    (hinv : db.investigation = some inv)
    (hs : d.Settled (Irez.destination (hash.hex content) src.suffix) content)
    (hdb : db'.toTables =
      (Statement.insertArtifact (storedArtifact (hash.hex content) inv.id src)).effect db.toTables) :
    Intact hash db' d := by
  have hart : db'.artifacts = db.artifacts ++ [storedArtifact (hash.hex content) inv.id src] := by
    rw [hdb]
    rfl
  have hsame : db'.investigation = some inv := by
    rw [hdb]
    exact hinv
  have hall : ∀ {P : Artifact → Prop}, (∀ a ∈ db.artifacts, P a) →
      P (storedArtifact (hash.hex content) inv.id src) → ∀ a ∈ db'.artifacts, P a := by
    intro P hold hnew a ha
    rw [hart] at ha
    rcases List.mem_append.mp ha with ha | ha
    · exact hold a ha
    · rw [List.mem_singleton.mp ha]
      exact hnew
  refine ⟨hall h.named rfl, hall h.stored ⟨content, rfl, hs⟩,
    hall h.destination ⟨content, _, hsuffix, rfl⟩, hall (fun a ha => ?_) ?_, h.flushed⟩
  · rw [hsame, ← hinv]
    exact h.investigation a ha
  · rw [hsame]
    rfl

/-- A row whose file is on the disk is inserted. -/
theorem insertArtifact_meets {content : Bytes} {src : Source} {inv : Investigation}
    (hsuffix : src.suffix ∈ artifactSuffixes) (hi : Intact hash s₀.db s₀.disk)
    (hinv : s₀.db.investigation = some inv) (hw : Working hash s₀ s)
    (hs : s.disk.Settled (destination (hash.hex content) src.suffix) content) :
    (insertArtifact (storedArtifact (hash.hex content) inv.id src)).Meets (StoreSem faulty source)
      (fun s' => Kept hash s₀.disk s'.disk)
      (fun r s' => ∀ a created, r = .ok (a, created) → created = true ∧
        a = storedArtifact (hash.hex content) inv.id src ∧ Intact hash s'.db s'.disk ∧
        s'.db.toTables = (Statement.insertArtifact a).effect s₀.db.toTables) s := by
  refine meets_perform hw.2 fun a s₁ h₁ => ?_
  rcases sem_insert h₁ with ⟨db, hdb, rfl, rfl⟩ | ⟨⟨e, rfl⟩, rfl⟩
  · have hk : Kept hash s₀.disk ({ s with db := db } : StoreState).disk := hw.2
    have ht := exec_ok hdb
    rw [hw.1] at ht
    have hrow : db.artifact (storedArtifact (hash.hex content) inv.id src).id =
        some (storedArtifact (hash.hex content) inv.id src) := by
      refine lookup_self db.constraints.artifactKey ?_
      rw [ht]
      exact List.mem_append_right _ (List.mem_singleton.mpr rfl)
    refine (select_meets hk).bind (fun found s₂ _ h₂ => ?_) fun _ _ _ _ _ _ h => by cases h
    obtain ⟨rfl, hfound | ⟨_, _, hfound⟩⟩ := h₂
    · cases hfound
      rw [hrow]
      refine meets_pure hw.2 fun a created h => ?_
      cases h
      exact ⟨rfl, rfl, (hi.kept hw.2).insert hsuffix hinv hs ht, ht⟩
    · cases hfound
  · exact meets_fail hw.2 fun _ _ h => by cases h

/-- The stored artifact is returned, where nothing fails: its file is intact. -/
theorem deduplicate_meets {stateDir : String} {existing : Artifact} {content : Bytes}
    {inv : StoreState → Prop} (hinv : inv s) (hs : s.disk.Settled existing.storedPath content)
    (hh : hash.hex content = existing.contentSha256) :
    (deduplicate stateDir hash existing.contentSha256 existing).Meets (StoreSem faulty source) inv
      (fun r s' => s' = s ∧ (r = .ok (existing, false) ∨ faulty ∧ ∃ e, r = .error e)) s := by
  refine meets_perform hinv fun stored s' h => ?_
  rcases h with ⟨_, h⟩ | ⟨hf, h⟩
  · have hread : (some content, s) = (stored, s') := by
      rw [← h, answer, hs.1]
      rfl
    cases hread
    show (if hash.hex content ≠ existing.contentSha256 then _ else _ :
      StoreProgram (Artifact × Bool)).Meets _ _ _ _
    rw [if_neg (not_not.mpr hh)]
    exact meets_pure hinv ⟨rfl, Or.inl rfl⟩
  · cases h
    exact meets_fail hinv ⟨rfl, Or.inr ⟨hf, _, rfl⟩⟩

/-- A row with the content's hash. -/
def Stored (hash : Sha256) (content : Bytes) (db : Database) : Prop :=
  ∃ a ∈ db.artifacts, a.contentSha256 = hash.hex content

/-- The query by hash finds the row with the hash. -/
theorem Intact.artifactWith_iff {db : Database} {d : Disk String Bytes} (h : Intact hash db d)
    {inv : Investigation} (hinv : db.investigation = some inv) {hex : String} {a : Artifact} :
    db.artifactWith inv.id hex = some a ↔ a ∈ db.artifacts ∧ a.contentSha256 = hex := by
  rw [Tables.artifactWith, lookup_eq_some_iff db.constraints.artifactContent, Prod.mk.injEq]
  refine and_congr_right fun ha => and_iff_right ?_
  have hid := h.investigation a ha
  rw [hinv] at hid
  exact (Option.some.inj hid).symm

/-- Two rows with one hash are one row. -/
theorem Intact.hash_inj {db : Database} {d : Disk String Bytes} (h : Intact hash db d)
    {a b : Artifact} (ha : a ∈ db.artifacts) (hb : b ∈ db.artifacts)
    (hh : a.contentSha256 = b.contentSha256) : a = b := by
  have hid : a.id = b.id := by rw [h.named a ha, h.named b hb, hh]
  exact List.inj_on_of_nodup_map db.constraints.artifactKey ha hb hid

/-- What a call on a content ends with: for a stored content its row, and nothing done;
    otherwise a new row. -/
def Returned (faulty : Prop) (hash : Sha256) (content : Bytes) (s₀ : StoreState)
    (r : Except Thrown (Artifact × Bool)) (s : StoreState) : Prop :=
  match r with
  | .error _ => Stored hash content s₀.db → faulty ∧ s = s₀
  | .ok (a, false) => s = s₀ ∧ a ∈ s₀.db.artifacts ∧ a.contentSha256 = hash.hex content
  | .ok (a, true) => ¬ Stored hash content s₀.db ∧ Intact hash s.db s.disk ∧
    a.contentSha256 = hash.hex content ∧
    s.db.toTables = (Statement.insertArtifact a).effect s₀.db.toTables

theorem ingestContent_meets {stateDir : String} {src : Source} {content : Bytes}
    (hsuffix : src.suffix ∈ artifactSuffixes) (hi : Intact hash s₀.db s₀.disk) :
    (ingestContent stateDir hash src content).Meets (StoreSem faulty source)
      (fun s => Kept hash s₀.disk s.disk) (Returned faulty hash content s₀) s₀ := by
  have hk : Kept hash s₀.disk s₀.disk := .refl _
  have herror : ∀ {α : Type} {a : α} (e : Thrown) (s : StoreState), s = s₀ ∧
      ((Except.error e : Except Thrown α) = .ok a ∨ faulty ∧ ∃ e', Except.error e = .error (α := α) e') →
      Returned faulty hash content s₀ (.error e) s := by
    intro α a e s h _
    rcases h.2 with he | ⟨hf, _⟩
    · cases he
    · exact ⟨hf, h.1⟩
  refine (select_meets hk).bind (fun found s _ h => ?_) fun e s _ h => herror e s h
  obtain ⟨hs, h | ⟨_, _, h⟩⟩ := h
  swap
  · cases h
  cases h
  subst hs
  cases hinv : s.db.investigation with
  | none =>
    refine meets_fail (.refl _) ?_
    rintro ⟨a, ha, _⟩
    have hid := hi.investigation a ha
    rw [hinv] at hid
    cases hid
  | some inv =>
    refine (select_meets (.refl _)).bind (fun found s' _ h => ?_) fun e s' _ h => herror e s' h
    obtain ⟨hs, h | ⟨_, _, h⟩⟩ := h
    swap
    · cases h
    cases h
    subst hs
    cases hwith : s'.db.artifactWith inv.id (hash.hex content) with
    | some existing =>
      obtain ⟨ha, hh⟩ := (hi.artifactWith_iff hinv).mp hwith
      obtain ⟨c, hc, hset⟩ := hi.stored existing ha
      rw [← hh]
      refine (deduplicate_meets (.refl _) hset hc).mono (fun _ h => h) fun r s h₁ h => ?_
      obtain ⟨hs, rfl | ⟨hf, e, rfl⟩⟩ := h
      · exact ⟨hs, ha, hh⟩
      · exact fun _ => ⟨hf, hs⟩
    | none =>
      have hnew : ¬ Stored hash content s'.db := by
        rintro ⟨a, ha, hh⟩
        rw [(hi.artifactWith_iff hinv).mpr ⟨ha, hh⟩] at hwith
        cases hwith
      refine (select_meets (.refl _)).bind (fun found s _ h => ?_) fun e s _ h => herror e s h
      obtain ⟨hs, h | ⟨_, _, h⟩⟩ := h
      swap
      · cases h
      cases h
      subst hs
      cases s.db.artifact (storedArtifact (hash.hex content) inv.id src).id with
      | some other => exact meets_fail (.refl _) fun h => absurd h hnew
      | none =>
        refine ((publishFile_meets hsuffix hi.flushed (Working.refl s)).mono (fun _ h => h.2)
          fun r s' hw h => And.intro hw h).bind (fun a s' _ h => ?_) fun e s' _ _ h => absurd h hnew
        refine (insertArtifact_meets hsuffix hi hinv h.1 (h.2 a rfl)).mono (fun _ h => h)
          fun r s'' _ h => ?_
        rcases r with e | ⟨row, created⟩
        · exact fun h => absurd h hnew
        · obtain ⟨rfl, rfl, hi', ht⟩ := h row created rfl
          exact ⟨hnew, hi', rfl, ht⟩

/-- **A call keeps the files under final names at every operation**, and returns as it should. -/
theorem ingestFile_meets {stateDir : String} {src : Source} (hsuffix : src.suffix ∈ artifactSuffixes)
    (hi : Intact hash s₀.db s₀.disk) :
    (ingestFile stateDir hash src).Meets (StoreSem faulty source)
      (fun s => Kept hash s₀.disk s.disk)
      (fun r s => match source with
        | none => ∃ e, r = .error e
        | some content => Returned faulty hash content s₀ r s) s₀ := by
  refine meets_perform (.refl _) fun buffer s₁ h₁ => ?_
  have hs₁ : buffer = source ∧ s₁ = s₀ := by
    rcases h₁ with ⟨_, h₁⟩ | ⟨_, h₁⟩ <;> cases h₁
    exact ⟨rfl, rfl⟩
  obtain ⟨rfl, rfl⟩ := hs₁
  cases buffer with
  | none => exact meets_fail (.refl _) ⟨_, rfl⟩
  | some content => exact ingestContent_meets hsuffix hi

end Call

/-! ## 4. The machine -/

/-- The holder of the write lock: its transaction's tables and what is left of its call.
    `content` is what the source file holds when the call reads it. -/
structure Holder where
  process : Nat
  content : Option Bytes
  pending : Database
  program : StoreProgram (Artifact × Bool)

structure Machine where
  db : Database
  disk : Disk String Bytes
  holder : Option Holder

variable (hash) (stateDir : String)

/-- What `Service::ingest` does to the store, and what may happen to the machine. -/
inductive Machine.Step : Machine → Machine → Prop where
  /-- `BEGIN IMMEDIATE`, after the check of the suffix. -/
  | start {m : Machine} {p : Nat} {src : Source} {content : Option Bytes} (hm : m.holder = none)
      (hs : src.suffix ∈ artifactSuffixes) :
      Machine.Step m { m with holder := some ⟨p, content, m.db, ingestFile stateDir hash src⟩ }
  | operation {m : Machine} {p : Nat} {content : Option Bytes} {db db' : Database}
      {disk' : Disk String Bytes} {program program' : StoreProgram (Artifact × Bool)}
      (hm : m.holder = some ⟨p, content, db, program⟩)
      (h : Program.Step (StoreSem True content) (program, ⟨db, m.disk⟩) (program', ⟨db', disk'⟩)) :
      Machine.Step m { m with disk := disk', holder := some ⟨p, content, db', program'⟩ }
  | commit {m : Machine} {p : Nat} {content : Option Bytes} {db : Database} {a : Artifact × Bool}
      (hm : m.holder = some ⟨p, content, db, .done (.ok a)⟩) :
      Machine.Step m ⟨db, m.disk, none⟩
  /-- The call threw, or its commit failed. -/
  | rollback {m : Machine} {p : Nat} {content : Option Bytes} {db : Database}
      {r : Except Thrown (Artifact × Bool)} (hm : m.holder = some ⟨p, content, db, .done r⟩) :
      Machine.Step m { m with holder := none }
  /-- The process that holds the lock is gone. -/
  | kill {m : Machine} : Machine.Step m { m with holder := none }
  /-- The machine goes down. -/
  | crash {m : Machine} {disk' : Disk String Bytes} (h : m.disk.Crash disk') :
      Machine.Step m ⟨m.db, disk', none⟩

/-- A state after `init`: no artifact, and what files there are are on the disk. -/
structure Machine.Initial (m : Machine) : Prop where
  artifacts : m.db.artifacts = []
  flushed : ∀ path, m.disk.Flushed path
  idle : m.holder = none

def Machine.Reachable (m : Machine) : Prop :=
  ∃ m₀ : Machine, m₀.Initial ∧ Relation.ReflTransGen (Machine.Step hash stateDir) m₀ m

variable {hash stateDir}

/-- The rows and the files agree, and the call that is under way keeps them so. -/
structure Machine.Safe (hash : Sha256) (m : Machine) : Prop where
  intact : Intact hash m.db m.disk
  call : ∀ c, m.holder = some c → c.program.Meets (StoreSem True c.content)
    (fun s => Intact hash m.db s.disk)
    (fun r s => ∀ a, r = .ok a → Intact hash s.db s.disk) ⟨c.pending, m.disk⟩

theorem Machine.Initial.safe {m : Machine} (h : m.Initial) : m.Safe hash where
  intact := by
    have hnil : ∀ {P : Artifact → Prop}, ∀ a ∈ m.db.artifacts, P a := by
      intro P a ha
      rw [h.artifacts] at ha
      exact absurd ha List.not_mem_nil
    exact ⟨hnil, hnil, hnil, hnil, fun path _ => h.flushed path⟩
  call c hc := by
    rw [h.idle] at hc
    cases hc

theorem Machine.Safe.idle {m : Machine} (h : Intact hash m.db m.disk) (hm : m.holder = none) :
    m.Safe hash where
  intact := h
  call c hc := by
    rw [hm] at hc
    cases hc

/-- A call that returns leaves rows and files that agree. -/
theorem Returned.intact {faulty : Prop} {content : Bytes} {s₀ s : StoreState} {a : Artifact × Bool}
    (h : Returned faulty hash content s₀ (.ok a) s) (hi : Intact hash s₀.db s₀.disk) :
    Intact hash s.db s.disk := by
  obtain ⟨a, created⟩ := a
  cases created with
  | false =>
    obtain ⟨rfl, _⟩ := h
    exact hi
  | true => exact h.2.1

/-- **Every step keeps rows and files together.** -/
theorem Machine.Safe.step {m m' : Machine} (h : m.Safe hash) (hs : Machine.Step hash stateDir m m') :
    m'.Safe hash := by
  cases hs with
  | @start p src content hm hs =>
    refine ⟨h.intact, fun c hc => ?_⟩
    cases hc
    have hmeets : (ingestFile stateDir hash src).Meets (StoreSem True content) _ _ ⟨m.db, m.disk⟩ :=
      ingestFile_meets hs h.intact
    refine hmeets.mono (fun s hk => h.intact.kept hk) fun r s _ hr a ha => ?_
    subst ha
    cases content with
    | none =>
      obtain ⟨e, he⟩ := hr
      cases he
    | some content => exact Returned.intact hr h.intact
  | @operation p content db db' disk' program program' hm hstep =>
    have hmeets := (h.call _ hm).steps (.single hstep)
    refine ⟨hmeets.start, fun c hc => ?_⟩
    cases hc
    exact hmeets
  | commit hm => exact .idle ((h.call _ hm).2 _ rfl) rfl
  | rollback hm => exact .idle h.intact rfl
  | kill => exact .idle h.intact rfl
  | crash hc => exact .idle (h.intact.crash hc) rfl

theorem Machine.Reachable.safe {m : Machine} (h : m.Reachable hash stateDir) : m.Safe hash := by
  obtain ⟨m₀, h₀, hrun⟩ := h
  induction hrun with
  | refl => exact h₀.safe
  | tail _ hs ih => exact ih.step hs

/-! ## 5. Whole calls -/

variable (hash stateDir) in
/-- A call that nobody interrupts, on a source file with the content: it commits what it
    returns with, and is rolled back where it throws or its commit fails. -/
inductive Machine.Call (faulty : Prop) (src : Source) (content : Option Bytes) (m : Machine) :
    Except Thrown (Artifact × Bool) → Machine → Prop where
  | returned {a : Artifact × Bool} {s : StoreState}
      (h : Steps (StoreSem faulty content) (ingestFile stateDir hash src, ⟨m.db, m.disk⟩)
        (.done (.ok a), s)) : Machine.Call faulty src content m (.ok a) ⟨s.db, s.disk, none⟩
  | threw {e : Thrown} {s : StoreState}
      (h : Steps (StoreSem faulty content) (ingestFile stateDir hash src, ⟨m.db, m.disk⟩)
        (.done (.error e), s)) : Machine.Call faulty src content m (.error e) ⟨m.db, s.disk, none⟩
  | commitFailed {e : Thrown} {a : Artifact × Bool} {s : StoreState} (hf : faulty)
      (h : Steps (StoreSem faulty content) (ingestFile stateDir hash src, ⟨m.db, m.disk⟩)
        (.done (.ok a), s)) : Machine.Call faulty src content m (.error e) ⟨m.db, s.disk, none⟩

/-- A call's operations are steps of the machine. -/
theorem Machine.operations {m : Machine} {p : Nat} {content : Option Bytes} {faulty : Prop}
    {program program' : StoreProgram (Artifact × Bool)} {s s' : StoreState}
    (h : Steps (StoreSem faulty content) (program, s) (program', s')) :
    Relation.ReflTransGen (Machine.Step hash stateDir)
      ⟨m.db, s.disk, some ⟨p, content, s.db, program⟩⟩
      ⟨m.db, s'.disk, some ⟨p, content, s'.db, program'⟩⟩ := by
  have key : ∀ x, Steps (StoreSem faulty content) (program, s) x →
      Relation.ReflTransGen (Machine.Step hash stateDir)
        ⟨m.db, s.disk, some ⟨p, content, s.db, program⟩⟩
        ⟨m.db, x.2.disk, some ⟨p, content, x.2.db, x.1⟩⟩ := by
    intro x hx
    induction hx with
    | refl => exact .refl
    | tail _ hstep ih =>
      cases hstep with
      | mk hR => exact ih.tail (.operation rfl ⟨hR.imp_right fun hf => ⟨trivial, hf.2⟩⟩)
  exact key _ h

/-- **A call is a run of the machine.** -/
theorem Machine.Call.run {faulty : Prop} {src : Source} {content : Option Bytes} {m m' : Machine}
    {r : Except Thrown (Artifact × Bool)} (h : Machine.Call hash stateDir faulty src content m r m')
    (hm : m.holder = none) (hs : src.suffix ∈ artifactSuffixes) :
    Relation.ReflTransGen (Machine.Step hash stateDir) m m' := by
  have hstart : Machine.Step hash stateDir m
      { m with holder := some ⟨0, content, m.db, ingestFile stateDir hash src⟩ } := .start hm hs
  cases h with
  | returned h => exact ((Machine.operations (m := m) h).head hstart).tail (.commit rfl)
  | threw h => exact ((Machine.operations (m := m) h).head hstart).tail (.rollback rfl)
  | commitFailed _ h => exact ((Machine.operations (m := m) h).head hstart).tail (.rollback rfl)

section Calls

variable {faulty : Prop} {src : Source} {content : Bytes} {m m' : Machine}
  {r : Except Thrown (Artifact × Bool)} {a : Artifact}

/-- A call on a stored content changes nothing, and returns its row where nothing fails. -/
theorem Machine.Call.stored (h : Machine.Call hash stateDir faulty src (some content) m r m')
    (hi : Intact hash m.db m.disk) (hm : m.holder = none) (hs : src.suffix ∈ artifactSuffixes)
    (ha : a ∈ m.db.artifacts) (hh : a.contentSha256 = hash.hex content) :
    m' = m ∧ (r = .ok (a, false) ∨ faulty ∧ ∃ e, r = .error e) := by
  have hstored : Stored hash content m.db := ⟨a, ha, hh⟩
  have hmeets : (ingestFile stateDir hash src).Meets (StoreSem faulty (some content)) _ _
      ⟨m.db, m.disk⟩ := ingestFile_meets hs hi
  have hsame : ∀ {b : Artifact × Bool} {s : StoreState},
      Returned faulty hash content ⟨m.db, m.disk⟩ (.ok b) s → s = ⟨m.db, m.disk⟩ ∧ b = (a, false) := by
    rintro ⟨b, created⟩ s hr
    cases created with
    | true => exact absurd hstored hr.1
    | false =>
      obtain ⟨rfl, hb, hbh⟩ := hr
      have hab : b = a := hi.hash_inj hb ha (hbh.trans hh.symm)
      exact ⟨rfl, by rw [hab]⟩
  have hmachine : (⟨m.db, m.disk, none⟩ : Machine) = m := by
    rw [← hm]
  cases h with
  | returned h =>
    obtain ⟨rfl, rfl⟩ := hsame (hmeets.steps h).2
    exact ⟨hmachine, Or.inl rfl⟩
  | threw h =>
    obtain ⟨hf, rfl⟩ := (hmeets.steps h).2 hstored
    exact ⟨hmachine, Or.inr ⟨hf, _, rfl⟩⟩
  | commitFailed hf h =>
    obtain ⟨rfl, rfl⟩ := hsame (hmeets.steps h).2
    exact ⟨hmachine, Or.inr ⟨hf, _, rfl⟩⟩

/-- A call where nothing fails comes to an end. -/
theorem Machine.call_exists (m : Machine) (src : Source) (content : Option Bytes) :
    ∃ r m', Machine.Call hash stateDir False src content m r m' := by
  have hanswer : ∀ s op, StoreSem False content s op (answer content "" s op).1
      (answer content "" s op).2 := fun s op => Or.inl ⟨"", rfl⟩
  have hsteps := eval_steps hanswer (ingestFile stateDir hash src) ⟨m.db, m.disk⟩
  cases hr : ((ingestFile stateDir hash src).eval (answer content "") ⟨m.db, m.disk⟩).1 with
  | ok a =>
    rw [hr] at hsteps
    exact ⟨_, _, .returned hsteps⟩
  | error e =>
    rw [hr] at hsteps
    exact ⟨_, _, .threw hsteps⟩

/-- A call that throws adds no row and changes no file under a final name. -/
theorem Machine.Call.thrown {content : Option Bytes} {e : Thrown}
    (h : Machine.Call hash stateDir faulty src content m (.error e) m')
    (hi : Intact hash m.db m.disk) (hs : src.suffix ∈ artifactSuffixes) :
    m'.db = m.db ∧ ∀ path, IsDestination hash path → ∀ file, m.disk.live path = some file →
      m'.disk.live path = some file := by
  have hmeets : (ingestFile stateDir hash src).Meets (StoreSem faulty content) _ _
      ⟨m.db, m.disk⟩ := ingestFile_meets hs hi
  cases h with
  | threw h => exact ⟨rfl, (hmeets.steps h).1.live⟩
  | commitFailed _ h => exact ⟨rfl, (hmeets.steps h).1.live⟩

end Calls

/-! ## 6. The integrity of the store -/

/-- What holds of the store in a state. -/
structure StoreIntegrity (hash : Sha256) (stateDir : String) (m : Machine) : Prop where
  /-- Every committed row has its file, with the bytes it is hashed from, and its name. -/
  rows : ∀ a ∈ m.db.artifacts, a.id = "artifact:" ++ shortHash a.contentSha256 ∧
    ∃ content, (m.disk.live a.storedPath).map (·.content) = some content ∧
      hash.hex content = a.contentSha256
  distinct : ∀ a ∈ m.db.artifacts, ∀ b ∈ m.db.artifacts,
    a.id = b.id ∨ a.contentSha256 = b.contentSha256 → a = b
  /-- A call on a stored content returns its row and changes nothing, unless something fails;
      then it changes nothing either. -/
  deduplicates : m.holder = none → ∀ src : Source, src.suffix ∈ artifactSuffixes →
    ∀ content, ∀ a ∈ m.db.artifacts, a.contentSha256 = hash.hex content →
      Machine.Call hash stateDir False src (some content) m (.ok (a, false)) m ∧
        ∀ faulty r m', Machine.Call hash stateDir faulty src (some content) m r m' →
          m' = m ∧ (r = .ok (a, false) ∨ faulty ∧ ∃ e, r = .error e)
  /-- A call that throws adds no row and changes no published file. -/
  throws : ∀ src : Source, src.suffix ∈ artifactSuffixes → ∀ content e m',
    Machine.Call hash stateDir True src content m (.error e) m' →
      m'.db = m.db ∧ ∀ path, IsDestination hash path → ∀ file,
        m.disk.live path = some file → m'.disk.live path = some file

/-- **The content store keeps its integrity** over every sequence of calls by any number of
    processes, with processes killed and the machine going down between any two operations. -/
theorem store_integrity {m : Machine} (h : m.Reachable hash stateDir) :
    StoreIntegrity hash stateDir m := by
  have hi := h.safe.intact
  constructor
  case rows =>
    intro a ha
    obtain ⟨content, hc, hs⟩ := hi.stored a ha
    exact ⟨hi.named a ha, content, by rw [hs.1]; rfl, hc⟩
  case distinct =>
    intro a ha b hb hab
    rcases hab with hid | hh
    · exact List.inj_on_of_nodup_map m.db.constraints.artifactKey ha hb hid
    · exact hi.hash_inj ha hb hh
  case deduplicates =>
    intro hm src hs content a ha hh
    refine ⟨?_, fun faulty r m' hcall => hcall.stored hi hm hs ha hh⟩
    obtain ⟨r, m', hcall⟩ : ∃ r m', Machine.Call hash stateDir False src (some content) m r m' :=
      Machine.call_exists m src (some content)
    obtain ⟨rfl, rfl | ⟨hf, _⟩⟩ := hcall.stored hi hm hs ha hh
    · exact hcall
    · exact hf.elim
  case throws =>
    intro src hs content e m' hcall
    exact hcall.thrown hi hs

namespace EmptyFile

/-- The hash of the empty content. -/
def sha256 : Sha256 where
  hex _ := "e3b0c44298fc1c149afbf4c8996fb92427ae41e4649b934ca495991b7852b855"
  length _ := by decide
  digits _ x hx := by
    have hall : "e3b0c44298fc1c149afbf4c8996fb92427ae41e4649b934ca495991b7852b855".toList.all
        (fun c => decide (c ∈ "0123456789abcdef".toList)) = true := rfl
    exact of_decide_eq_true (List.all_eq_true.mp hall x hx)

def source : Source := ⟨"m.ll", "/m.ll"⟩

def tables : Tables :=
  { investigations := [⟨"investigation:i", "default"⟩], artifacts := [], runs := [], entities := [],
    relations := [], sourceLocations := [], materializations := [], capabilities := [] }

def initial : Machine := ⟨⟨tables, by decide⟩, ⟨fun _ => none, fun _ => []⟩, none⟩

def outcome : Except Thrown (Artifact × Bool) × StoreState :=
  (ingestFile "/state" sha256 source).eval (answer (some []) "u") ⟨initial.db, initial.disk⟩

/-- The machine after a call on an empty file. -/
def ingested : Machine := ⟨outcome.2.db, outcome.2.disk, none⟩

theorem ingested_reachable : ingested.Reachable sha256 "/state" := by
  have hinit : initial.Initial := by
    refine ⟨rfl, fun path file hf => ?_, rfl⟩
    rcases List.mem_singleton.mp hf with h
    cases h
  have hsteps := eval_steps (R := StoreSem False (some [])) (fun s op => Or.inl ⟨"u", rfl⟩)
    (ingestFile "/state" sha256 source) ⟨initial.db, initial.disk⟩
  have hcall : Machine.Call sha256 "/state" False source (some []) initial
      (.ok (storedArtifact (sha256.hex []) "investigation:i" source, true)) ingested := .returned hsteps
  exact ⟨initial, hinit, hcall.run rfl (by decide)⟩

end EmptyFile

theorem store_integrity_empty_file :
    StoreIntegrity EmptyFile.sha256 "/state" EmptyFile.ingested ∧
      EmptyFile.ingested.db.artifacts =
        [storedArtifact (EmptyFile.sha256.hex []) "investigation:i" EmptyFile.source] :=
  ⟨store_integrity EmptyFile.ingested_reachable, rfl⟩

end Irez
