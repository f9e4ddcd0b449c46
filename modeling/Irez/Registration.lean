/-
  File:      Irez/Registration.lean
  Subject:   Installs and uninstalls that fail half way.

  The configuration is changed first and the manifest last, and what the later commands may touch
  is decided by comparing the two. So a run that ends between them leaves an entry that nobody
  owns, or an owner without its entry.

  * `Answered` -- what a failed install has to leave behind;
  * `failed_install_answered` -- when it does;
  * `Finishes` -- what a second uninstall has to reach;
  * `uninstall_again_finishes` -- from which interruptions it does.
-/
import Irez.HostConfig

open Irez.Basis.Json

namespace Irez.Installer

/-! ## 1. Entries -/

def entry (data : JsonValue) : Option JsonValue := (data.get mcp).bind (·.get irez)

/-- The entry of a configuration, if it can be read. -/
def entryOf (S : Serde) (o : Options) (config : File) : Option JsonValue :=
  (readJsonc S o config).toOption.bind entry

/-- What an entry stands in. -/
theorem entry_some {data v : JsonValue} (h : entry data = some v) : ∃ ms servers,
    data = .object ms ∧ Members.get ms mcp = some (.object servers) ∧
    Members.get servers irez = some v := by
  unfold entry at h
  obtain ⟨m, hm, hv⟩ := Option.bind_eq_some_iff.mp h
  cases data with
  | object ms => cases m with
    | object servers => exact ⟨ms, servers, rfl, hm, hv⟩
    | _ => cases hv
  | _ => cases hm

theorem entryOf_some {S : Serde} {o : Options} {config : File} {v : JsonValue}
    (h : entryOf S o config = some v) :
    ∃ data, readJsonc S o config = .ok data ∧ entry data = some v := by
  unfold entryOf at h
  cases hread : readJsonc S o config with
  | error e => simp [hread, Except.toOption] at h
  | ok data => exact ⟨data, rfl, by simpa [hread, Except.toOption] using h⟩

@[simp] theorem entryOf_absent (S : Serde) (o : Options) : entryOf S o .absent = none := rfl

theorem entryOf_written {S : Serde} {data : JsonValue} (h : S.Prints data) (o : Options) :
    entryOf S o (written S data) = entry data := by
  simp [entryOf, readJsonc_written h, Except.toOption]

/-- **What is registered is the server.** -/
theorem register_entry {o : Options} {owned : Bool} {data new : JsonValue}
    (h : register o owned data = .ok new) : entry new = some (serverConfig o) := by
  cases data with
  | object ms =>
    by_cases hlisted : ServersListed (.object ms)
    · obtain ⟨servers, rfl, hentry, _⟩ := register_edits hlisted h
      simp [entry, hentry]
    · -- then there is a null under `mcp`
      unfold ServersListed at hlisted
      push Not at hlisted
      obtain ⟨v, hv, hobject⟩ := hlisted
      rw [register_unlisted hv (by simpa using hobject)] at h
      split at h
      · rw [← Except.ok.inj h]
        simp [entry]
      · cases h
  | _ => cases h

theorem installData_entry {S : Serde} {o : Options} {h : Host} {new : JsonValue}
    (hnew : installData S o h = .ok new) : entry new = some (serverConfig o) := by
  unfold installData at hnew
  cases hread : readJsonc S o h.config with
  | error e => simp [hread, bind, Except.bind] at hnew
  | ok data =>
    simp only [hread, bind, Except.bind] at hnew
    exact register_entry hnew

/-! ## 2. A failed install -/

/-- The fault comes about, given the file as it is. -/
def WriteFault.occurs (f : WriteFault) (windows : Bool) (config : File) : Bool :=
  match f with
  | .prepare | .rename => true
  | .remove => windows && config.exists

/-- It leaves no file in the place of the old one. -/
def WriteFault.loses (f : WriteFault) (windows : Bool) (config : File) : Bool :=
  match f with
  | .rename => windows && config.exists
  | _ => false

/-- What a fault leaves of the configuration. -/
def WriteFault.left (f : WriteFault) (windows : Bool) (config : File) : File :=
  if f.loses windows config then .absent else config

theorem writeJsonConfig_fault {S : Serde} {windows : Bool} {f : WriteFault} {config : File}
    {data : JsonValue} (h : f.occurs windows config = true) :
    writeJsonConfig S windows (some f) config data =
      (.error .io, f.left windows config) := by
  cases f with
  | prepare => rfl
  | remove =>
    have hc : (windows && config.exists) = true := h
    simp [writeJsonConfig, WriteFault.left, WriteFault.loses, hc]
  | rename => rfl

theorem writeJsonConfig_written {S : Serde} {windows : Bool} {fault : Option WriteFault}
    {config : File} {data : JsonValue} (h : ∀ f, fault = some f → f.occurs windows config = false) :
    writeJsonConfig S windows fault config data = (.ok (), written S data) := by
  cases fault with
  | none => rfl
  | some f =>
    have hf := h f rfl
    cases f with
    | remove =>
      have hc : (windows && config.exists) = false := hf
      simp [writeJsonConfig, hc]
    | _ => cases hf

/-- The configuration is not replaced: an earlier step fails, the checks refuse, or the write
    itself fails. -/
def Withheld (S : Serde) (windows : Bool) (o : Options) (fault : Option InstallFault)
    (h : Host) : Prop :=
  fault = some .state ∨ (∃ e, installData S o h = .error e) ∨
    ∃ f, InstallFault.onConfig fault = some f ∧ f.occurs windows h.config = true

/-- The file is lost on the way: it has been removed, and the new one does not take its place. -/
def Lost (S : Serde) (windows : Bool) (o : Options) (fault : Option InstallFault)
    (h : Host) : Prop :=
  (∃ data, installData S o h = .ok data) ∧
    ∃ f, InstallFault.onConfig fault = some f ∧ f.loses windows h.config = true

/-- The manifest that is on disk when a run fails behind the configuration: the skill's own refusal
    and the fingerprints come before it is opened. -/
def manifestLeft (b : Bundle) (o : Options) (fault : Option InstallFault) (h : Host) : File :=
  if (o.installSkill = true ∧ h.skill = .unowned) ∨ b.cli = none ∨ b.mcpBinary = none then
    h.manifest
  else
    match InstallFault.onManifest fault with
    | some (.writing left) => .text left
    | _ => h.manifest

/-- The manifest is the installer's and records a server. -/
def Records (S : Serde) (manifest : File) (server : JsonValue) : Prop :=
  registrationOwned S manifest = true ∧ recordedServer S manifest = some server

/-- **What a failed install has to leave**: the entry that was there before, or one that the
    manifest records, which an uninstall removes and an install without `--force` accepts. -/
def Answered (S : Serde) (windows : Bool) (o : Options) (before after : Host) : Prop :=
  entryOf S o after.config = entryOf S o before.config ∨
    ((∃ server, entryOf S o after.config = some server ∧ Records S after.manifest server) ∧
      (uninstall S windows o none after).1 = .ok () ∧
      ∃ data, installData S { o with force := false } after = .ok data)

section FailedInstall

variable {S : Serde} {windows : Bool} {b : Bundle} {o : Options} {fault : Option InstallFault}
  {h : Host}

theorem Lost.withheld (hl : Lost S windows o fault h) : Withheld S windows o fault h := by
  obtain ⟨_, f, hf, hloses⟩ := hl
  refine .inr (.inr ⟨f, hf, ?_⟩)
  cases f with
  | rename => rfl
  | _ => cases hloses

/-- Where the configuration is withheld the run ends with what the write left. -/
theorem install_withheld (hw : Withheld S windows o fault h) :
    (install S windows b o fault h).2.config = h.config ∧ ¬ Lost S windows o fault h ∨
      (install S windows b o fault h).2.config = .absent ∧ Lost S windows o fault h := by
  by_cases hstate : fault = some .state
  · refine .inl ⟨by simp [install, hstate], ?_⟩
    rintro ⟨_, f, hf, _⟩
    rw [hstate] at hf
    cases hf
  · cases hdata : installData S o h with
    | error e =>
      refine .inl ⟨by simp [install, hstate, hdata], ?_⟩
      rintro ⟨⟨data, hok⟩, _⟩
      rw [hdata] at hok
      cases hok
    | ok data =>
      have hwrite : ∃ f, InstallFault.onConfig fault = some f ∧
          f.occurs windows h.config = true := by
        rcases hw with hs | ⟨e, he⟩ | hwrite
        · exact absurd hs hstate
        · rw [hdata] at he
          cases he
        · exact hwrite
      obtain ⟨f, hf, hoccurs⟩ := hwrite
      have hrun : (install S windows b o fault h).2.config = f.left windows h.config := by
        simp [install, hstate, hdata, hf, writeJsonConfig_fault hoccurs]
      unfold WriteFault.left at hrun
      cases hloses : f.loses windows h.config with
      | false =>
        refine .inl ⟨by simpa [hloses] using hrun, ?_⟩
        rintro ⟨_, f', hf', hl⟩
        obtain rfl := Option.some.inj (hf.symm.trans hf')
        rw [hloses] at hl
        cases hl
      | true => exact .inr ⟨by simpa [hloses] using hrun, ⟨data, hdata⟩, f, hf, hloses⟩

theorem manifestOf_error (hm : b.cli = none ∨ b.mcpBinary = none) :
    ∃ e, manifestOf b o = .error e := by
  unfold manifestOf fileFingerprint
  cases hcli : b.cli with
  | none => exact ⟨_, rfl⟩
  | some cli => cases hmcp : b.mcpBinary with
    | none => exact ⟨_, rfl⟩
    | some mcpBinary => rcases hm with hm | hm <;> simp_all

theorem manifestOf_made (hm : ¬ (b.cli = none ∨ b.mcpBinary = none)) :
    ∃ m, manifestOf b o = .ok m := by
  unfold manifestOf fileFingerprint
  cases hcli : b.cli with
  | none => exact absurd (.inl hcli) hm
  | some cli => cases hmcp : b.mcpBinary with
    | none => exact absurd (.inr hmcp) hm
    | some mcpBinary => exact ⟨_, rfl⟩

/-- The manifest that a failing write leaves. -/
theorem writeManifest_left (hm : ¬ (o.installSkill = true ∧ h.skill = .unowned))
    (hfail : (writeManifest S b o (InstallFault.onManifest fault) h.manifest).1 ≠ .ok ()) :
    (writeManifest S b o (InstallFault.onManifest fault) h.manifest).2 =
      manifestLeft b o fault h := by
  unfold manifestLeft
  by_cases hb : b.cli = none ∨ b.mcpBinary = none
  · obtain ⟨e, he⟩ := manifestOf_error hb (o := o)
    rw [if_pos (.inr hb)]
    simp [writeManifest, he]
  · obtain ⟨m, he⟩ := manifestOf_made hb (o := o)
    rw [if_neg (not_or.mpr ⟨hm, hb⟩)]
    cases hf : InstallFault.onManifest fault with
    | none => simp [writeManifest, he, hf] at hfail
    | some f => cases f <;> simp [writeManifest, he]

/-- A skill that is not linked is one that is not owned, or fails by its own fault. -/
theorem linkSkill_error {path : SkillPath} {e : Failure} {left : SkillPath}
    (hl : linkSkill o (InstallFault.onSkill fault) path = (.error e, left)) :
    path = .unowned ∨ InstallFault.onManifest fault = none := by
  cases fault with
  | none => cases path <;> simp [linkSkill, InstallFault.onSkill, writeSkill] at hl ⊢
  | some f => cases f with
    | manifest f => cases path <;> simp [linkSkill, InstallFault.onSkill, writeSkill] at hl ⊢
    | _ => exact .inr rfl

/-- **Where the configuration is replaced** and the run fails later, the manifest is what it
    was or what its own failing write left. -/
theorem install_committed (hw : ¬ Withheld S windows o fault h) {e : Failure}
    (hfail : (install S windows b o fault h).1 = .error e) :
    ∃ data, installData S o h = .ok data ∧
      (install S windows b o fault h).2.config = written S data ∧
      (install S windows b o fault h).2.manifest = manifestLeft b o fault h := by
  unfold Withheld at hw
  push Not at hw
  obtain ⟨hstate, hchecks, hwrite⟩ := hw
  cases hdata : installData S o h with
  | error e' => exact absurd hdata (hchecks e')
  | ok data =>
    have hwritten : writeJsonConfig S windows (InstallFault.onConfig fault) h.config data =
        (.ok (), written S data) := by
      refine writeJsonConfig_written fun f hf => ?_
      simpa using hwrite f hf
    refine ⟨data, rfl, ?_⟩
    cases hlink : if o.installSkill then linkSkill o (InstallFault.onSkill fault) h.skill
        else (.ok (), h.skill) with
    | mk answer skill =>
      cases answer with
      | error e' =>
        have hrun : install S windows b o fault h =
            (.error e', ⟨written S data, skill, h.manifest⟩) := by
          simp only [install, if_neg hstate, hdata, hwritten, hlink]
        rw [hrun]
        refine ⟨rfl, ?_⟩
        have hskill : o.installSkill = true := by
          by_contra hno
          rw [if_neg hno] at hlink
          cases hlink
        rw [if_pos hskill] at hlink
        unfold manifestLeft
        rcases linkSkill_error hlink with hun | hnone
        · simp [hskill, hun]
        · simp [hnone]
      | ok u =>
        have hrun : install S windows b o fault h =
            ((writeManifest S b o (InstallFault.onManifest fault) h.manifest).1,
              ⟨written S data, skill,
                (writeManifest S b o (InstallFault.onManifest fault) h.manifest).2⟩) := by
          simp only [install, if_neg hstate, hdata, hwritten, hlink]
        rw [hrun] at hfail ⊢
        refine ⟨rfl, writeManifest_left ?_ ?_⟩
        · rintro ⟨hskill, hun⟩
          rw [if_pos hskill, hun] at hlink
          cases hlink
        · intro hok
          rw [hok] at hfail
          cases hfail

/-- **A recorded entry** is removed by an uninstall, and accepted by an install of the server. -/
theorem recorded_answers {after : Host} (hentry : entryOf S o after.config = some (serverConfig o))
    (hrec : Records S after.manifest (serverConfig o)) :
    (uninstall S windows o none after).1 = .ok () ∧
      ∃ data, installData S { o with force := false } after = .ok data := by
  obtain ⟨data, hread, he⟩ := entryOf_some hentry
  obtain ⟨ms, servers, rfl, hmcp, hv⟩ := entry_some he
  constructor
  · have hexists : after.config.exists = true := by
      cases hc : after.config with
      | absent =>
        rw [hc] at hentry
        cases hentry
      | _ => rfl
    have hdata := uninstallData_recorded hread hexists hmcp hv hrec.2
    obtain ⟨skill, _, hrun⟩ := uninstall_recorded windows hrec.1 hdata
    rw [hrun]
  · have hread' : readJsonc S { o with force := false } after.config = .ok (.object ms) := hread
    have hserver : serverConfig { o with force := false } = serverConfig o := rfl
    have hcheck : checkExisting { o with force := false }
        (registrationOwned S after.manifest) (Members.get servers irez) = .ok () := by
      simp [checkExisting, hv, hserver, hrec.1]
    refine ⟨.object (Members.insert ms mcp
      (.object (Members.insert servers irez (serverConfig o)))), ?_⟩
    simp [installData, hread', bind, Except.bind, register, hmcp, hcheck, indexAssign, pure,
      Except.pure, hserver]

/-- **When a failed install leaves an answer.** It does exactly where the old file, if lost, had no
    entry in it, and where the configuration was not replaced, or had the server in it already,
    or the manifest left on disk records the server. -/
theorem failed_install_answered {e : Failure}
    (hfail : (install S windows b o fault h).1 = .error e)
    (hprint : ∀ data, installData S o h = .ok data → S.Prints data) :
    Answered S windows o h (install S windows b o fault h).2 ↔
      (Lost S windows o fault h → entryOf S o h.config = none) ∧
        (Withheld S windows o fault h ∨ entryOf S o h.config = some (serverConfig o) ∨
          Records S (manifestLeft b o fault h) (serverConfig o)) := by
  by_cases hw : Withheld S windows o fault h
  · rcases install_withheld (b := b) hw with ⟨hconfig, hlost⟩ | ⟨hconfig, hlost⟩
    · constructor
      · exact fun _ => ⟨fun hl => absurd hl hlost, .inl hw⟩
      · exact fun _ => .inl (by rw [hconfig])
    · unfold Answered
      rw [hconfig, entryOf_absent]
      constructor
      · rintro (hsame | ⟨⟨server, hserver, _⟩, _⟩)
        · exact ⟨fun _ => hsame.symm, .inl hw⟩
        · cases hserver
      · exact fun hsafe => .inl (hsafe.1 hlost).symm
  · obtain ⟨data, hdata, hconfig, hman⟩ := install_committed hw hfail
    have hentry : entryOf S o (install S windows b o fault h).2.config =
        some (serverConfig o) := by
      rw [hconfig, entryOf_written (hprint data hdata), installData_entry hdata]
    constructor
    · rintro (hsame | ⟨⟨server, hserver, hrec⟩, _⟩)
      · rw [hentry] at hsame
        exact ⟨fun hl => absurd hl.withheld hw, .inr (.inl hsame.symm)⟩
      · rw [hentry] at hserver
        obtain rfl := Option.some.inj hserver
        rw [hman] at hrec
        exact ⟨fun hl => absurd hl.withheld hw, .inr (.inr hrec)⟩
    · rintro ⟨_, hwith | hsame | hrec⟩
      · exact absurd hwith hw
      · exact .inl (hentry.trans hsame.symm)
      · rw [← hman] at hrec
        exact .inr ⟨⟨_, hentry, hrec⟩, recorded_answers hentry hrec⟩

end FailedInstall

namespace Sample

/-- A skill of the user's own stands where the installer's would go. -/
def occupied : Host := ⟨written S before, .unowned, .absent⟩

/-- The user has taken the entry out, and the manifest of an earlier install is there. -/
def removed : Host := ⟨written S before, .absent, .text (S.toStringPretty manifest)⟩

end Sample

open Sample in
/-- One install fails before the configuration is replaced; another fails at the skill, behind it,
    and the manifest records the entry. -/
theorem failed_install_answered_sample :
    Answered S false options occupied
      (install S false bundle options (some (.config .prepare)) occupied).2 ∧
    (install S false bundle options (some (.skill .building)) removed).2.config =
      written S installed ∧
    Answered S false options removed
      (install S false bundle options (some (.skill .building)) removed).2 := by
  have hwithheld : (install S false bundle options (some (.config .prepare)) occupied).1 =
      .error .io := by
    simp [install, before_installs (h := occupied) rfl, InstallFault.onConfig, writeJsonConfig]
  have hreplaced : install S false bundle options (some (.skill .building)) removed =
      (.error .io, ⟨written S installed, .absent, removed.manifest⟩) := by
    simp only [install, before_installs (h := removed) rfl, reduceCtorEq, if_false]
    rfl
  have hrecords : Records S removed.manifest (serverConfig options) :=
    manifest_records manifest_made (manifest_reads _ manifest_made)
  refine ⟨(failed_install_answered hwithheld (before_prints rfl)).mpr ⟨fun hlost => ?_, .inl ?_⟩,
    congrArg (fun run => run.2.config) hreplaced,
    (failed_install_answered (congrArg Prod.fst hreplaced) (before_prints rfl)).mpr
      ⟨fun hlost => ?_, .inr (.inr hrecords)⟩⟩
  · obtain ⟨_, f, hf, hloses⟩ := hlost
    obtain rfl := Option.some.inj hf
    cases hloses
  · exact .inr (.inr ⟨.prepare, rfl, rfl⟩)
  · obtain ⟨_, f, hf, _⟩ := hlost
    cases hf

open Sample in
/-- **An occupied skill path**: the install fails behind the configuration, and leaves an entry
    that was not there before and that no manifest records. -/
theorem install_leaves_entry :
    (install S false bundle options none occupied).1 = .error (.error
      "refusing to replace unowned skill path: /skills/irez-investigation") ∧
      ¬ Answered S false options occupied (install S false bundle options none occupied).2 := by
  have hrun : install S false bundle options none occupied = (.error (.error
      "refusing to replace unowned skill path: /skills/irez-investigation"),
      ⟨written S installed, .unowned, .absent⟩) := by
    simp only [install, before_installs (h := occupied) rfl, reduceCtorEq, if_false]
    rfl
  have hbefore : entryOf S options occupied.config = none := by
    show entryOf S options (written S before) = none
    rw [entryOf_written (prints _ (by simp [table]))]
    rfl
  have hafter : entryOf S options (written S installed) = some (serverConfig options) := by
    rw [entryOf_written (prints _ (by simp [table]))]
    rfl
  rw [hrun]
  refine ⟨rfl, ?_⟩
  rintro (hsame | ⟨⟨server, _, hrec, _⟩, _⟩)
  · rw [hbefore] at hsame
    rw [hafter] at hsame
    cases hsame
  · cases hrec

/-! ## 3. An uninstall that is taken up again -/

/-- **What an uninstall ends with**: no entry, no skill of its own and no manifest; everything else
    in the configuration, and a skill path that is not its own, are as they were. -/
structure Cleared (S : Serde) (o : Options) (before after : Host) : Prop where
  config : ∃ old new, readJsonc S o before.config = .ok old ∧
    readJsonc S o after.config = .ok new ∧ entry new = none ∧
    (∀ key, key ≠ mcp → new.get key = old.get key) ∧
    ∀ name, name ≠ irez →
      (new.get mcp).bind (·.get name) = (old.get mcp).bind (·.get name)
  skill : after.skill ≠ .owned
  unowned : before.skill = .unowned → after.skill = .unowned
  manifest : after.manifest = .absent

/-- **Taken up again from `h`**, an uninstall succeeds and ends so. -/
def Finishes (S : Serde) (windows : Bool) (o : Options) (before h : Host) : Prop :=
  ∃ after, uninstall S windows o none h = (.ok (), after) ∧ Cleared S o before after

/-- The configuration has nothing but the entry. -/
def Alone (data : JsonValue) : Prop :=
  (∀ key, key ≠ mcp → data.get key = none) ∧
    ∀ name, name ≠ irez → (data.get mcp).bind (·.get name) = none

/-- **The state of an entry that is registered and recorded.** -/
structure Installed (S : Serde) (o : Options) (h : Host) (ms servers : Members) : Prop where
  reads : readJsonc S o h.config = .ok (.object ms)
  present : h.config.exists = true
  lists : Members.get ms mcp = some (.object servers)
  holds : Members.get servers irez = some (serverConfig o)
  records : Records S h.manifest (serverConfig o)

theorem install_installed {S : Serde} {windows : Bool} {b : Bundle} {o : Options} {h₀ h : Host}
    (hok : install S windows b o none h₀ = (.ok (), h))
    (hnew : ∀ data, installData S o h₀ = .ok data → S.Prints data)
    (hmanifest : ∀ m, manifestOf b o = .ok m → S.Reads m) :
    ∃ ms servers, Installed S o h ms servers := by
  obtain ⟨data, m, hdata, hm, hconfig, hman⟩ := install_ok hok
  obtain ⟨ms, servers, rfl, hmcp, hentry⟩ := entry_some (installData_entry hdata)
  refine ⟨ms, servers, ?_, ?_, hmcp, hentry, ?_⟩
  · rw [hconfig]
    exact readJsonc_written (hnew _ hdata) o
  · rw [hconfig]
    rfl
  · rw [hman]
    exact manifest_records hm (hmanifest m hm)

section Again

variable {S : Serde} {windows : Bool} {o : Options} {fault : Option UninstallFault} {h : Host}
  {ms servers : Members}

theorem Installed.gone (hi : Installed S o h ms servers) :
    uninstallData S o h = .ok (some (withoutEntry ms servers)) :=
  uninstallData_recorded hi.reads hi.present hi.lists hi.holds hi.records.2

/-- What is left of the host by a write that fails. -/
theorem Installed.withheld (hi : Installed S o h ms servers) {f : WriteFault}
    (hf : UninstallFault.onConfig fault = some f) (hoccurs : f.occurs windows h.config = true) :
    (uninstall S windows o fault h).2 = { h with config := f.left windows h.config } := by
  simp [uninstall, hi.records.1, hi.gone, hf, writeJsonConfig_fault hoccurs]

/-- **Behind the write** the entry is gone, and the manifest stays or goes too. -/
theorem Installed.rewritten (hi : Installed S o h ms servers)
    (hf : ∀ f, UninstallFault.onConfig fault = some f → f.occurs windows h.config = false) :
    (uninstall S windows o fault h).2.config = written S (withoutEntry ms servers) ∧
      ((uninstall S windows o fault h).2.manifest = h.manifest ∨
        (uninstall S windows o fault h).2.manifest = .absent) := by
  have hwritten : writeJsonConfig S windows (UninstallFault.onConfig fault) h.config
      (withoutEntry ms servers) = (.ok (), written S (withoutEntry ms servers)) :=
    writeJsonConfig_written hf
  unfold uninstall
  simp only [hi.records.1, hi.gone, Option.elim_some, hwritten, Bool.true_eq_false, if_false]
  cases removeSkill (UninstallFault.onSkill fault) h.skill with
  | mk answer skill => cases answer with
    | error e => exact ⟨rfl, .inl rfl⟩
    | ok u =>
      by_cases hm : (h.manifest.exists && fault = some .manifest) = true
      · simp [hm]
      · simp [hm]

/-- **Without the entry no uninstall succeeds**: the manifest records what is not there, or is
    not there itself. -/
theorem Installed.refuses (hi : Installed S o h ms servers)
    (hgone : S.Prints (withoutEntry ms servers)) {h₁ after : Host}
    (hconfig : h₁.config = written S (withoutEntry ms servers))
    (hman : h₁.manifest = h.manifest ∨ h₁.manifest = .absent) :
    uninstall S windows o none h₁ ≠ (.ok (), after) := by
  intro hrun
  rcases hman with hman | hman
  · have hread : readJsonc S o h₁.config = .ok (withoutEntry ms servers) := by
      rw [hconfig]
      exact readJsonc_written hgone o
    have hexists : h₁.config.exists = true := by
      rw [hconfig]
      rfl
    have hrefused : uninstallData S o h₁ = .error (.error
        "refusing to remove an OpenCode registration changed since installation") := by
      simp only [uninstallData, hexists, if_true, hread, bind, Except.bind]
      exact unregister_gone (by rw [hman]; exact hi.records.2) ms servers
    have howned : registrationOwned S h₁.manifest = true := by
      rw [hman]
      exact hi.records.1
    simp only [uninstall, howned, hrefused, Bool.true_eq_false, if_false] at hrun
    cases hrun
  · have hunowned : registrationOwned S h₁.manifest = false := by
      rw [hman]
      rfl
    rw [uninstall, if_pos hunowned] at hrun
    cases hrun

/-- The skill after a removal. -/
theorem removeSkill_ok {path left : SkillPath} (h : removeSkill none path = (.ok (), left)) :
    left ≠ .owned ∧ (path = .unowned → left = .unowned) := by
  cases path <;> simp [removeSkill] at h <;> simp [← h]

/-- **Before the write** an uninstall succeeds, and it ends well unless the configuration is
    lost with something else in it. -/
theorem Installed.finishes (hi : Installed S o h ms servers)
    (hgone : S.Prints (withoutEntry ms servers)) (lost : Bool) :
    Finishes S windows o h { h with config := if lost then .absent else h.config } ↔
      (lost = true → Alone (.object ms)) := by
  cases lost with
  | false =>
    obtain ⟨skill, hskill, hrun⟩ := uninstall_recorded windows hi.records.1 hi.gone
    obtain ⟨howned, hunowned⟩ := removeSkill_ok hskill
    constructor
    · intro _ he
      cases he
    · intro _
      refine ⟨_, hrun, ⟨_, _, hi.reads, readJsonc_written hgone o, ?_, ?_, ?_⟩, howned, hunowned,
        rfl⟩
      · simp [entry, withoutEntry]
      · intro key hkey
        exact Members.get_insert_of_ne hkey ms _
      · intro name hname
        simp [withoutEntry, hi.lists, Members.get_remove_of_ne hname]
  | true =>
    have hskill : ∃ skill, removeSkill none h.skill = (.ok (), skill) := by
      cases h.skill <;> exact ⟨_, rfl⟩
    obtain ⟨skill, hskill⟩ := hskill
    obtain ⟨howned, hunowned⟩ := removeSkill_ok hskill
    have hrun : uninstall S windows o none { h with config := .absent } =
        (.ok (), ⟨.absent, skill, .absent⟩) := by
      simp [uninstall, hi.records.1, uninstallData, File.exists, UninstallFault.onSkill, hskill]
    have hempty : readJsonc S o .absent = .ok (.object []) := rfl
    constructor
    · rintro ⟨after, hafter, hclear⟩ -
      obtain rfl := (Prod.mk.inj (hrun.symm.trans hafter)).2
      obtain ⟨old, new, hold, hnew, _, hothers, hservers⟩ := hclear.config
      obtain rfl := Except.ok.inj (hi.reads.symm.trans hold)
      obtain rfl := Except.ok.inj (hempty.symm.trans hnew)
      exact ⟨fun key hkey => (hothers key hkey).symm, fun name hname => (hservers name hname).symm⟩
    · intro halone
      obtain ⟨hothers, hservers⟩ := halone rfl
      refine ⟨_, hrun, ⟨_, _, hi.reads, hempty, rfl, ?_, ?_⟩, howned, hunowned, rfl⟩
      · intro key hkey
        exact (hothers key hkey).symm
      · intro name hname
        exact (hservers name hname).symm

end Again

/-- **When an uninstall can be taken up again.** After an install, a second uninstall finishes
    exactly where the first was stopped at writing the configuration, and did not lose it with
    something else in it. -/
theorem uninstall_again_finishes {S : Serde} {windows : Bool} {b : Bundle} {o : Options}
    {h₀ h : Host} (hinstall : install S windows b o none h₀ = (.ok (), h))
    (hnew : ∀ data, installData S o h₀ = .ok data → S.Prints data)
    (hmanifest : ∀ m, manifestOf b o = .ok m → S.Reads m)
    (hgone : ∀ data, uninstallData S o h = .ok (some data) → S.Prints data)
    (fault : Option UninstallFault) :
    Finishes S windows o h (uninstall S windows o fault h).2 ↔
      ∃ f, UninstallFault.onConfig fault = some f ∧ f.occurs windows h.config = true ∧
        (f.loses windows h.config = true →
          ∀ data, readJsonc S o h.config = .ok data → Alone data) := by
  obtain ⟨ms, servers, hi⟩ := install_installed hinstall hnew hmanifest
  have hprint := hgone _ hi.gone
  by_cases hwrite : ∃ f, UninstallFault.onConfig fault = some f ∧ f.occurs windows h.config = true
  · obtain ⟨f, hf, hoccurs⟩ := hwrite
    rw [hi.withheld hf hoccurs, WriteFault.left]
    refine (hi.finishes hprint (f.loses windows h.config)).trans ?_
    constructor
    · intro halone
      refine ⟨f, hf, hoccurs, fun hl data hdata => ?_⟩
      obtain rfl := Except.ok.inj (hi.reads.symm.trans hdata)
      exact halone hl
    · rintro ⟨f', hf', _, halone⟩ hl
      obtain rfl := Option.some.inj (hf.symm.trans hf')
      exact halone hl _ hi.reads
  · constructor
    · rintro ⟨after, hafter, _⟩
      have hno : ∀ f, UninstallFault.onConfig fault = some f →
          f.occurs windows h.config = false := by
        intro f hf
        simpa using fun hoccurs => hwrite ⟨f, hf, hoccurs⟩
      obtain ⟨hconfig, hman⟩ := hi.rewritten hno
      exact absurd hafter (hi.refuses hprint hconfig hman)
    · rintro ⟨f, hf, hoccurs, _⟩
      exact absurd ⟨f, hf, hoccurs⟩ hwrite

namespace Sample

/-- The host after an install. -/
def done : Host := ⟨written S installed, .owned, .text (S.toStringPretty manifest)⟩

theorem done_installed : install S false bundle options none (host before) = (.ok (), done) := by
  simp only [install, before_installs (h := host before) rfl, reduceCtorEq, if_false]
  rfl

def servers : Members := [(irez, serverConfig options), ("other".toList, .object [])]

theorem done_state : Installed S options done
    [(mcp, .object servers), ("theme".toList, .string "dark".toList)] servers where
  reads := host_reads (by simp [table])
  present := rfl
  lists := rfl
  holds := rfl
  records := manifest_records manifest_made (manifest_reads _ manifest_made)

theorem done_gone : S.Prints (withoutEntry
    [(mcp, .object servers), ("theme".toList, .string "dark".toList)] servers) := by
  have hsame : withoutEntry [(mcp, .object servers), ("theme".toList, .string "dark".toList)]
      servers = before := rfl
  rw [hsame]
  exact prints _ (by simp [table])

end Sample

open Sample in
theorem uninstall_again_finishes_sample : Finishes S false options done
    (uninstall S false options (some (.config .prepare)) done).2 := by
  refine (uninstall_again_finishes done_installed (before_prints rfl) manifest_reads ?_ _).mpr
    ⟨.prepare, rfl, rfl, fun hloses => by cases hloses⟩
  intro data hdata
  obtain rfl := Option.some.inj (Except.ok.inj (done_state.gone.symm.trans hdata))
  exact done_gone

open Sample in
/-- **Stopped before the manifest is removed**: the second uninstall refuses the entry that the
    first has taken out. -/
theorem uninstall_again_refused :
    install S false bundle options none (host before) = (.ok (), done) ∧
      ¬ Finishes S false options done (uninstall S false options (some .manifest) done).2 := by
  refine ⟨done_installed, ?_⟩
  rintro ⟨after, hafter, _⟩
  have hno : ∀ f, UninstallFault.onConfig (some .manifest) = some f →
      f.occurs false done.config = false := by
    intro f hf
    cases hf
  obtain ⟨hconfig, hman⟩ := done_state.rewritten hno
  exact done_state.refuses done_gone hconfig hman hafter

end Irez.Installer
