/-
  File:      Irez/HostConfig.lean
  Subject:   What installing and uninstalling make of the host's configuration.

  The configuration is edited at one place, `mcp.irez`. Everything beside that place is kept where
  `mcp` is an object or is not there at all; where it is some other value the installer panics, or
  puts an object in the place of a null.

  * `EditedAt` -- a value edited at `mcp.irez` alone;
  * `register_cases` -- what `register` does, by what stands under `mcp`;
  * `Confined` -- an install and the uninstall that follows it edit nothing else;
  * `install_confined` -- they do exactly where `mcp` is absent or an object.
-/
import Irez.Printer

open Irez.Basis.Json

namespace Irez.Installer

/-! ## 1. The manifest -/

/-- What the manifest of an install says of its owner and of the server. -/
theorem manifestOf_ok {b : Bundle} {o : Options} {data : JsonValue} (h : manifestOf b o = .ok data) :
    data.get "installed_by".toList = some (string "irez") ∧
      data.get "server".toList = some (serverConfig o) := by
  unfold manifestOf at h
  cases hcli : fileFingerprint o.cli b.cli with
  | error e => simp [hcli, bind, Except.bind] at h
  | ok cli =>
    cases hmcp : fileFingerprint o.mcpBinary b.mcpBinary with
    | error e => simp [hcli, hmcp, bind, Except.bind] at h
    | ok mcpBinary =>
      simp only [hcli, hmcp, bind, Except.bind, pure, Except.pure, Except.ok.injEq] at h
      subst h
      exact ⟨rfl, rfl⟩

/-- **The manifest of an install is owned, and records its server.** -/
theorem manifest_records {S : Serde} {b : Bundle} {o : Options} {data : JsonValue}
    (h : manifestOf b o = .ok data) (hr : S.Reads data) :
    registrationOwned S (.text (S.toStringPretty data)) = true ∧
      recordedServer S (.text (S.toStringPretty data)) = some (serverConfig o) := by
  obtain ⟨howner, hserver⟩ := manifestOf_ok h
  constructor
  · unfold registrationOwned
    rw [ownershipData_printed hr, Option.bind_some, howner]
    rfl
  · unfold recordedServer
    rw [ownershipData_printed hr, Option.bind_some, hserver]

/-! ## 2. A value edited at `mcp.irez` -/

/-- **`new` is `old` with `entry` at `mcp.irez`**, where `mcp` is made an object if it is not
    there: every other member of the value, and every other member of `mcp`, is the same. An
    `mcp` that `install` made stays after `uninstall`, as an empty object. -/
structure EditedAt (old new : JsonValue) (entry : Option JsonValue) : Prop where
  object : old.isObject = true
  created : ∀ v, old.get mcp = some v → v.isObject = true
  others : ∀ key, key ≠ mcp → new.get key = old.get key
  servers : ∃ ms, new.get mcp = some (.object ms) ∧ Members.get ms irez = entry ∧
    ∀ name, name ≠ irez → Members.get ms name = (old.get mcp).bind (·.get name)

/-- The servers that a configuration lists. -/
def serversOf (ms : Members) : Members :=
  match Members.get ms mcp with
  | some (.object servers) => servers
  | _ => []

/-- **`mcp` is an object or is not there.** -/
def ServersListed (data : JsonValue) : Prop := ∀ v, data.get mcp = some v → v.isObject = true

theorem serversOf_get {ms : Members} (h : ServersListed (.object ms)) (name : List Char) :
    Members.get (serversOf ms) name = (Members.get ms mcp).bind (·.get name) := by
  unfold serversOf
  cases hmcp : Members.get ms mcp with
  | none => rfl
  | some v =>
    have hobject := h v hmcp
    cases v with
    | object servers => rfl
    | _ => cases hobject

/-- Putting an edited list of servers in place. -/
theorem editedAt_insert {ms ms' servers : Members} {entry : Option JsonValue}
    (h : ServersListed (.object ms))
    (hsame : ∀ key, key ≠ mcp → Members.get ms' key = Members.get ms key)
    (hentry : Members.get servers irez = entry)
    (hothers : ∀ name, name ≠ irez → Members.get servers name = Members.get (serversOf ms) name) :
    EditedAt (.object ms) (.object (Members.insert ms' mcp (.object servers))) entry where
  object := rfl
  created := h
  others key hkey := (Members.get_insert_of_ne hkey ms' _).trans (hsame key hkey)
  servers := by
    refine ⟨servers, Members.get_insert_self ms' mcp _, hentry, ?_⟩
    intro name hname
    rw [hothers name hname, serversOf_get h]
    rfl

/-! ## 3. Registering -/

theorem checkExisting_no_panic {o : Options} {owned : Bool} {entry : Option JsonValue} {e : Failure}
    (h : checkExisting o owned entry = .error e) : e ≠ .panic := by
  unfold checkExisting at h
  cases entry with
  | none => cases h
  | some existing =>
    simp only at h
    split at h
    · simp [← Except.error.inj h]
    · split at h
      · simp [← Except.error.inj h]
      · cases h

/-- Where the servers are listed. -/
theorem register_listed {ms : Members} (h : ServersListed (.object ms)) (o : Options)
    (owned : Bool) : register o owned (.object ms) =
      (checkExisting o owned (Members.get (serversOf ms) irez)).map fun _ =>
        .object (Members.insert ms mcp
          (.object (Members.insert (serversOf ms) irez (serverConfig o)))) := by
  unfold register serversOf
  cases hmcp : Members.get ms mcp with
  | none =>
    simp only [hmcp, Option.getD_none, JsonValue.get_object, bind, Except.bind, indexAssign, pure,
      Except.pure, Except.map]
  | some v =>
    have hobject := h v hmcp
    cases v with
    | object servers =>
      simp only [hmcp, Option.getD_some, JsonValue.get_object, bind, Except.bind, indexAssign, pure,
        Except.pure, Except.map]
    | _ => cases hobject

/-- Where something else stands under `mcp`. -/
theorem register_unlisted {ms : Members} {v : JsonValue} (hmcp : Members.get ms mcp = some v)
    (hv : v.isObject = false) (o : Options) (owned : Bool) :
    register o owned (.object ms) =
      if v = .null then
        .ok (.object (Members.insert ms mcp
          (.object (Members.insert [] irez (serverConfig o)))))
      else .error .panic := by
  cases v with
  | object servers => cases hv
  | null => simp [register, hmcp, JsonValue.get, checkExisting, indexAssign, bind, Except.bind, pure,
      Except.pure]
  | _ => simp [register, hmcp, JsonValue.get, checkExisting, indexAssign, bind, Except.bind]

/-- **What is registered** where the servers are listed. -/
theorem register_edits {ms : Members} (h : ServersListed (.object ms)) {o : Options}
    {owned : Bool} {new : JsonValue} (hnew : register o owned (.object ms) = .ok new) :
    ∃ servers, new = .object (Members.insert ms mcp (.object servers)) ∧
      Members.get servers irez = some (serverConfig o) ∧
      ∀ name, name ≠ irez → Members.get servers name = Members.get (serversOf ms) name := by
  rw [register_listed h] at hnew
  cases hcheck : checkExisting o owned (Members.get (serversOf ms) irez) with
  | error e => simp [hcheck, Except.map] at hnew
  | ok u =>
    simp only [hcheck, Except.map, Except.ok.injEq] at hnew
    refine ⟨_, hnew.symm, Members.get_insert_self _ _ _, ?_⟩
    intro name hname
    exact Members.get_insert_of_ne hname _ _

theorem register_no_panic {data : JsonValue} (h : ServersListed data) {o : Options} {owned : Bool}
    {e : Failure} (he : register o owned data = .error e) : e ≠ .panic := by
  cases data with
  | object ms =>
    rw [register_listed h] at he
    cases hcheck : checkExisting o owned (Members.get (serversOf ms) irez) with
    | error e' =>
      simp only [hcheck, Except.map, Except.error.injEq] at he
      subst he
      exact checkExisting_no_panic hcheck
    | ok u => simp [hcheck, Except.map] at he
  | _ => simp [← Except.error.inj he]

/-! ### Taking the entry out again -/

/-- A configuration without the entry. -/
def withoutEntry (ms servers : Members) : JsonValue :=
  .object (Members.insert ms mcp (.object (Members.remove servers irez)))

/-- **What is taken out**: the entry, where it is the server that the manifest records. -/
theorem unregister_recorded {S : Serde} {manifest : File} {ms servers : Members} {server : JsonValue}
    (hmcp : Members.get ms mcp = some (.object servers))
    (hentry : Members.get servers irez = some server)
    (hrecorded : recordedServer S manifest = some server) :
    unregister S manifest (.object ms) = .ok (some (withoutEntry ms servers)) := by
  simp [unregister, hmcp, hentry, hrecorded, withoutEntry]

/-- Where the entry is gone and the manifest still records one. -/
theorem unregister_gone {S : Serde} {manifest : File} {server : JsonValue}
    (hrecorded : recordedServer S manifest = some server) (ms servers : Members) :
    unregister S manifest (withoutEntry ms servers) = .error (.error
      "refusing to remove an OpenCode registration changed since installation") := by
  unfold unregister withoutEntry
  simp only [Members.get_insert_self, Members.get_remove_self, hrecorded]
  exact if_pos (by simp)

/-! ## 4. The runs -/

/-- The step of `install` that edits the configuration. -/
def editConfig (S : Serde) (o : Options) (h : Host) : Except Failure Unit × File :=
  match installData S o h with
  | .error e => (.error e, h.config)
  | .ok data => writeJsonConfig S false none h.config data

/-- The edit is that step of `install`: the run ends with its error, or goes on with the file. -/
theorem install_config {S : Serde} {windows : Bool} {b : Bundle} {o : Options} {h : Host} :
    (install S windows b o none h).2.config = (editConfig S o h).2 := by
  unfold install editConfig
  cases hdata : installData S o h with
  | error e => simp
  | ok data =>
    simp only [InstallFault.onConfig, writeJsonConfig, reduceCtorEq, if_false]
    split <;> rfl

/-- **A successful install**: the configuration and the manifest are written, and the skill stands
    where it was asked for. -/
theorem install_ok {S : Serde} {windows : Bool} {b : Bundle} {o : Options} {h h' : Host}
    (hok : install S windows b o none h = (.ok (), h')) :
    ∃ data m, installData S o h = .ok data ∧ manifestOf b o = .ok m ∧
      h'.config = written S data ∧ h'.manifest = .text (S.toStringPretty m) := by
  unfold install at hok
  cases hdata : installData S o h with
  | error e => simp [hdata] at hok
  | ok data =>
    simp only [hdata, reduceCtorEq, if_false, InstallFault.onConfig, writeJsonConfig,
      InstallFault.onManifest] at hok
    split at hok
    · cases hok
    · cases hm : manifestOf b o with
      | error e => simp [writeManifest, hm] at hok
      | ok m =>
        simp only [writeManifest, hm, Prod.mk.injEq, true_and] at hok
        subst hok
        exact ⟨data, m, rfl, rfl, rfl, rfl⟩

/-- What was read and registered. -/
theorem installData_ok {S : Serde} {o : Options} {h : Host} {old new : JsonValue}
    (hread : readJsonc S o h.config = .ok old) :
    installData S o h = .ok new ↔ register o (registrationOwned S h.manifest) old = .ok new := by
  simp [installData, hread, bind, Except.bind]

theorem uninstallData_recorded {S : Serde} {o : Options} {h : Host} {ms servers : Members}
    {server : JsonValue} (hread : readJsonc S o h.config = .ok (.object ms))
    (hexists : h.config.exists = true) (hmcp : Members.get ms mcp = some (.object servers))
    (hentry : Members.get servers irez = some server)
    (hrecorded : recordedServer S h.manifest = some server) :
    uninstallData S o h = .ok (some (withoutEntry ms servers)) := by
  simp [uninstallData, hexists, hread, bind, Except.bind,
    unregister_recorded hmcp hentry hrecorded]

/-- **An uninstall of a recorded entry** writes the configuration without it. -/
theorem uninstall_recorded (windows : Bool) {S : Serde} {o : Options} {h : Host} {data : JsonValue}
    (howned : registrationOwned S h.manifest = true)
    (hdata : uninstallData S o h = .ok (some data)) :
    ∃ skill, removeSkill none h.skill = (.ok (), skill) ∧
      uninstall S windows o none h = (.ok (), ⟨written S data, skill, .absent⟩) := by
  have hskill : ∃ skill, removeSkill none h.skill = (.ok (), skill) := by
    cases h.skill <;> exact ⟨_, rfl⟩
  obtain ⟨skill, hskill⟩ := hskill
  refine ⟨skill, hskill, ?_⟩
  simp [uninstall, howned, hdata, UninstallFault.onConfig, UninstallFault.onSkill,
    writeJsonConfig, hskill]

/-- **What the edit of the configuration has to keep to**: it does not panic, leaves the file as
    it was when it refuses, and otherwise writes what was read with the server at `mcp.irez`; and
    an uninstall after the install writes what was read without that entry. -/
structure Confined (S : Serde) (windows : Bool) (b : Bundle) (o : Options) (h : Host)
    (old : JsonValue) : Prop where
  panics : (editConfig S o h).1 ≠ .error .panic
  refused : ∀ e, (editConfig S o h).1 = .error e → (editConfig S o h).2 = h.config
  edited : (editConfig S o h).1 = .ok () → ∃ new, (editConfig S o h).2 = written S new ∧
    EditedAt old new (some (serverConfig o))
  undone : ∀ h', install S windows b o none h = (.ok (), h') → ∃ new,
    (uninstall S windows o none h').1 = .ok () ∧
    (uninstall S windows o none h').2.config = written S new ∧ EditedAt old new none

/-- **When the edit is confined.** Installing and uninstalling keep to `mcp.irez` exactly where
    the configuration's `mcp` is an object or is not there. -/
theorem install_confined {S : Serde} {windows : Bool} {b : Bundle} {o : Options} {h : Host}
    {old : JsonValue} (hread : readJsonc S o h.config = .ok old)
    (hnew : ∀ new, installData S o h = .ok new → S.Prints new)
    (hmanifest : ∀ m, manifestOf b o = .ok m → S.Reads m) :
    Confined S windows b o h old ↔ ServersListed old := by
  constructor
  · intro hc v hv
    cases old with
    | object ms =>
      by_contra hobject
      have hregister := register_unlisted hv (by simpa using hobject) o
        (registrationOwned S h.manifest)
      by_cases hnull : v = .null
      · -- a null is taken for an object
        rw [if_pos hnull] at hregister
        have hdata := (installData_ok hread).mpr hregister
        obtain ⟨new, _, hedited⟩ := hc.edited (by simp [editConfig, hdata, writeJsonConfig])
        exact hobject (hedited.created v hv)
      · rw [if_neg hnull] at hregister
        have hdata : installData S o h = .error .panic := by
          simp [installData, hread, bind, Except.bind, hregister]
        exact hc.panics (by simp [editConfig, hdata])
    | _ => cases hv
  · intro hlisted
    have hdata : ∀ new, installData S o h = .ok new → ∃ ms servers, old = .object ms ∧
        new = .object (Members.insert ms mcp (.object servers)) ∧
        Members.get servers irez = some (serverConfig o) ∧
        ∀ name, name ≠ irez → Members.get servers name = Members.get (serversOf ms) name := by
      intro new hdata
      rw [installData_ok hread] at hdata
      cases old with
      | object ms =>
        obtain ⟨servers, hrest⟩ := register_edits hlisted hdata
        exact ⟨ms, servers, rfl, hrest⟩
      | _ => cases hdata
    refine ⟨?_, ?_, ?_, ?_⟩
    · intro he
      cases hd : installData S o h with
      | ok new => simp [editConfig, hd, writeJsonConfig] at he
      | error e =>
        have hregister : register o (registrationOwned S h.manifest) old = .error e := by
          simpa [installData, hread, bind, Except.bind] using hd
        have hpanic : e = .panic := by simpa [editConfig, hd] using he
        exact register_no_panic hlisted hregister hpanic
    · intro e he
      cases hd : installData S o h with
      | ok new => simp [editConfig, hd, writeJsonConfig] at he
      | error e => simp [editConfig, hd]
    · intro hok
      cases hd : installData S o h with
      | error e => simp [editConfig, hd] at hok
      | ok new =>
        obtain ⟨ms, servers, rfl, rfl, hentry, hothers⟩ := hdata new hd
        refine ⟨_, by rw [editConfig, hd]; rfl, ?_⟩
        exact editedAt_insert hlisted (fun _ _ => rfl) hentry hothers
    · intro h' hok
      obtain ⟨new, m, hd, hm, hconfig, hman⟩ := install_ok hok
      obtain ⟨ms, servers, rfl, rfl, hentry, hothers⟩ := hdata new hd
      obtain ⟨howned, hrecorded⟩ := manifest_records hm (hmanifest m hm)
      have hback : readJsonc S o h'.config =
          .ok (.object (Members.insert ms mcp (.object servers))) := by
        rw [hconfig]
        exact readJsonc_written (hnew _ hd) o
      have hgone := uninstallData_recorded (by rw [hback]) (by rw [hconfig]; rfl)
        (Members.get_insert_self ms mcp _) hentry (by rw [hman]; exact hrecorded)
      obtain ⟨skill, _, hrun⟩ := uninstall_recorded windows (by rw [hman]; exact howned) hgone
      refine ⟨_, by rw [hrun], by rw [hrun], ?_⟩
      refine editedAt_insert hlisted ?_ (Members.get_remove_self _ _) ?_
      · intro key hkey
        exact Members.get_insert_of_ne hkey ms _
      · intro name hname
        rw [Members.get_remove_of_ne hname, hothers name hname]

/-! ### A host -/

namespace Sample

def options : Options where
  stateDir := "/state"
  cli := "/bin/irez"
  mcpBinary := "/bin/irez-mcp"
  force := false
  installSkill := true
  opencodeConfig := "/opencode.jsonc"
  skillDestination := "/skills/irez-investigation"

def bundle : Bundle := ⟨[], some [], some []⟩

/-- A configuration with a server of the user's own. -/
def before : JsonValue :=
  .object [(mcp, .object [("other".toList, .object [])]), ("theme".toList, .string "dark".toList)]

def installed : JsonValue :=
  .object [(mcp, .object [(irez, serverConfig options), ("other".toList, .object [])]),
    ("theme".toList, .string "dark".toList)]

def manifest : JsonValue := manifestData bundle options (fnv1a64 []) (fnv1a64 [])

/-- One in which a list stands under `mcp`. -/
def listed : JsonValue := .object [(mcp, .array [])]

def table : List JsonValue := [before, installed, manifest, listed]

abbrev S : Serde := Printer.serde table

def host (config : JsonValue) : Host := ⟨written S config, .absent, .absent⟩

theorem reads : ∀ v ∈ table, S.Reads v := by
  unfold Serde.Reads
  decide +kernel

theorem prints : ∀ v ∈ table, S.Prints v := by
  intro v hv
  have hplain : ∀ v ∈ table, Printer.plain v = true := by decide +kernel
  have hnewline : ∀ v ∈ table, S.fromStr (Printer.toStringPretty v ++ ['\n']) = some v := by
    decide +kernel
  exact Printer.prints (hplain v hv) (reads v hv) (hnewline v hv)

theorem host_reads {config : JsonValue} (h : config ∈ table) :
    readJsonc S options (written S config) = .ok config :=
  readJsonc_written (prints config h) options

theorem before_registers (manifest : File) :
    register options (registrationOwned S manifest) before = .ok installed := rfl

theorem manifest_made : manifestOf bundle options = .ok manifest := rfl

theorem manifest_reads : ∀ m, manifestOf bundle options = .ok m → S.Reads m := by
  intro m hm
  obtain rfl := Except.ok.inj (manifest_made.symm.trans hm)
  exact reads _ (by simp [table])

/-- What an install makes of the configuration. -/
theorem before_installs {h : Host} (hconfig : h.config = written S before) :
    installData S options h = .ok installed := by
  have hread : readJsonc S options h.config = .ok before := by
    rw [hconfig]
    exact host_reads (by simp [table])
  rw [installData_ok hread]
  exact before_registers _

theorem before_prints {h : Host} (hconfig : h.config = written S before) :
    ∀ data, installData S options h = .ok data → S.Prints data := by
  intro data hdata
  obtain rfl := Except.ok.inj ((before_installs hconfig).symm.trans hdata)
  exact prints _ (by simp [table])

end Sample

open Sample in
theorem install_confined_sample : Confined S false bundle options (host before) before := by
  refine (install_confined (host_reads (by simp [table])) (before_prints rfl)
    manifest_reads).mpr ?_
  intro v hv
  obtain rfl := Option.some.inj hv
  rfl

open Sample in
/-- **A list under `mcp`**: the configuration is accepted, and the install panics. -/
theorem register_panics :
    readJsonc S options (host listed).config = .ok listed ∧
      install S false bundle options none (host listed) = (.error .panic, host listed) ∧
      ¬ Confined S false bundle options (host listed) listed := by
  have hread : readJsonc S options (host listed).config = .ok listed :=
    host_reads (by simp [table])
  have hdata : installData S options (host listed) = .error .panic := by
    simp only [installData, hread, bind, Except.bind]
    rfl
  refine ⟨hread, ?_, ?_⟩
  · simp [install, hdata]
  · intro hc
    exact hc.panics (by simp [editConfig, hdata])

end Irez.Installer
