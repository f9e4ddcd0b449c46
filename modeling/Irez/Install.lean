/-
  File:      Irez/Install.lean
  Subject:   `install` and `uninstall` for the OpenCode host (mcp/src/install.rs).

  Three things on disk take part: the host's configuration, the skill directory and the ownership
  manifest. A run changes them one after the other and ends at the first step that fails; what a
  failing step leaves behind is told by the fault that is given to it.

  * `readJsonc`, `writeJsonConfig` -- the configuration, read and written;
  * `register`, `unregister` -- what becomes of the value that was read;
  * `linkSkill`, `removeSkill`, `writeManifest` -- the other two;
  * `install`, `uninstall` -- the runs;
  * `readJsonc_written` -- a configuration that was written is read back.
-/
import Irez.Basis.Members
import Irez.Jsonc

open Irez.Basis.Json

namespace Irez.Installer

/-! ## 1. What is on disk -/

/-- `serde_json`, where the installer calls it. -/
structure Serde where
  fromStr : List Char → Option JsonValue
  toStringPretty : JsonValue → List Char

/-- The options of a run for the platform `opencode`, and the path `skill_destination` gives. -/
structure Options where
  stateDir : String
  cli : String
  mcpBinary : String
  force : Bool
  installSkill : Bool
  opencodeConfig : String
  skillDestination : String
  deriving DecidableEq, Repr

/-- A file as `read_to_string` finds it. -/
inductive File where
  | absent
  | text (chars : List Char)
  | unreadable
  deriving DecidableEq, Repr

def File.exists : File → Bool
  | .absent => false
  | _ => true

/-- The skill's directory: the ownership marker stands in it or does not. -/
inductive SkillPath where
  | absent
  | owned
  | unowned
  deriving DecidableEq, Repr

structure Host where
  config : File
  skill : SkillPath
  manifest : File
  deriving DecidableEq, Repr

/-- How a step ends otherwise than well: with an error of its own, with one whose text comes from
    the operating system or from a command it runs, or with a panic. -/
inductive Failure where
  | error (message : String)
  | io
  | panic
  deriving DecidableEq, Repr

/-- The bytes the installer carries as its skill, and those of the two binaries where they can be
    read. -/
structure Bundle where
  skillFiles : List (List UInt8 × List UInt8)
  cli : Option (List UInt8)
  mcpBinary : Option (List UInt8)

/-! ## 2. The configuration -/

def mcp : List Char := ['m', 'c', 'p']

def irez : List Char := ['i', 'r', 'e', 'z']

def serverConfig (o : Options) : JsonValue :=
  .object [("command".toList, .array [.string o.mcpBinary.toList]),
    ("enabled".toList, .bool true),
    ("environment".toList, .object [("IREZ_CLI".toList, .string o.cli.toList),
      ("IREZ_STATE_DIR".toList, .string o.stateDir.toList)]),
    ("type".toList, .string "local".toList)]

def readJsonc (S : Serde) (o : Options) : File → Except Failure JsonValue
  | .absent => .ok (.object [])
  | .unreadable => .error (.error ("cannot read " ++ o.opencodeConfig))
  | .text chars =>
    match S.fromStr (jsoncToJson chars) with
    | some data => .ok data
    | none => .error (.error ("cannot parse " ++ o.opencodeConfig ++ " as JSONC"))

/-- Where `write_json_config` fails: before the old file is touched, at removing it (on Windows
    only), or at the last rename. -/
inductive WriteFault where
  | prepare
  | remove
  | rename
  deriving DecidableEq, Repr

def written (S : Serde) (data : JsonValue) : File := .text (S.toStringPretty data ++ ['\n'])

def writeJsonConfig (S : Serde) (windows : Bool) (fault : Option WriteFault) (config : File)
    (data : JsonValue) : Except Failure Unit × File :=
  match fault with
  | none => (.ok (), written S data)
  | some .prepare => (.error .io, config)
  | some .remove =>
    if windows && config.exists then (.error .io, config) else (.ok (), written S data)
  | some .rename => (.error .io, if windows && config.exists then .absent else config)

/-! ### The ownership manifest -/

def ownershipData (S : Serde) : File → Option JsonValue
  | .text chars => S.fromStr chars
  | _ => none

def registrationOwned (S : Serde) (manifest : File) : Bool :=
  (((ownershipData S manifest).bind (·.get "installed_by".toList)).bind JsonValue.asStr) =
    some "irez".toList

/-- The server that the manifest records. -/
def recordedServer (S : Serde) (manifest : File) : Option JsonValue :=
  (ownershipData S manifest).bind (·.get "server".toList)

/-! ### Registering -/

/-- The checks on an entry that is there already. -/
def checkExisting (o : Options) (owned : Bool) : Option JsonValue → Except Failure Unit
  | none => .ok ()
  | some existing =>
    if existing ≠ serverConfig o ∧ o.force = false then
      .error (.error "opencode MCP 'irez' differs; use --force to replace it.")
    else if existing = serverConfig o ∧ o.force = false ∧ owned = false then
      .error (.error ("opencode MCP 'irez' exists but is not owned by this installer; " ++
        "use --force to adopt it"))
    else .ok ()

/-- `v[key] = value`: null becomes an object, and what is no object panics. -/
def indexAssign (v : JsonValue) (key : List Char) (value : JsonValue) : Except Failure JsonValue :=
  match v with
  | .object ms => .ok (.object (Members.insert ms key value))
  | .null => .ok (.object (Members.insert [] key value))
  | _ => .error .panic

/-- What `install` makes of the configuration it read. -/
def register (o : Options) (owned : Bool) : JsonValue → Except Failure JsonValue
  | .object ms => do
    -- `entry("mcp").or_insert_with(..)`
    let servers := (Members.get ms mcp).getD (.object [])
    checkExisting o owned (servers.get irez)
    let servers ← indexAssign servers irez (serverConfig o)
    return .object (Members.insert ms mcp servers)
  | _ => .error (.error "opencode config is not a JSON object")

/-- What `uninstall` makes of it, where there is something to write. -/
def unregister (S : Serde) (manifest : File) : JsonValue → Except Failure (Option JsonValue)
  | .object ms =>
    match Members.get ms mcp with
    | some (.object servers) =>
      if Members.get servers irez ≠ recordedServer S manifest then
        .error (.error
          "refusing to remove an OpenCode registration changed since installation")
      else if (Members.get servers irez).isSome then
        .ok (some (.object (Members.insert ms mcp (.object (Members.remove servers irez)))))
      else .ok none
    | _ => .ok none
  | _ => .ok none

/-! ## 3. The skill -/

/-- Where `link_skill` fails: at removing the old directory, of which something is left, or later,
    when nothing is. -/
inductive SkillFault where
  | removing (left : SkillPath)
  | building
  deriving DecidableEq, Repr

def writeSkill (fault : Option SkillFault) : Except Failure Unit × SkillPath :=
  if fault = some .building then (.error .io, .absent) else (.ok (), .owned)

def linkSkill (o : Options) (fault : Option SkillFault) :
    SkillPath → Except Failure Unit × SkillPath
  | .unowned =>
    (.error (.error ("refusing to replace unowned skill path: " ++ o.skillDestination)), .unowned)
  | .owned =>
    match fault with
    | some (.removing left) => (.error .io, left)
    | fault => writeSkill fault
  | .absent => writeSkill fault

/-- `left` is what a removal that fails leaves of the directory. -/
def removeSkill (left : Option SkillPath) : SkillPath → Except Failure Unit × SkillPath
  | .owned =>
    match left with
    | some left => (.error .io, left)
    | none => (.ok (), .absent)
  | path => (.ok (), path)

/-! ## 4. The manifest -/

namespace Contract

def packageVersion : String := "0.1.0"

def irezVersion : String := "0.1.0"

def dbSchemaVersion : Nat := 2

def apiSchemaVersion : Nat := 1

def analysisSchemaVersion : Nat := 2

def adapterId : String := "llvm-ir"

def adapterVersion : Nat := 2

def cliContractVersion : Nat := 2

def mcpContractVersion : Nat := 2

end Contract

/-- `fnv1a64`: sixteen hexadecimal digits. -/
def fnv1a64 (bytes : List UInt8) : List Char :=
  let hash := bytes.foldl (fun hash (b : UInt8) => (hash ^^^ b.toUInt64) * 0x100000001b3)
    (0xcbf29ce484222325 : UInt64)
  let digits := Nat.toDigits 16 hash.toNat
  List.replicate (16 - digits.length) '0' ++ digits

def skillFingerprint (b : Bundle) : List Char :=
  fnv1a64 (b.skillFiles.flatMap fun (name, content) => name ++ 0 :: (content ++ [0]))

def number (n : Nat) : JsonValue := .number (Nat.toDigits 10 n)

def string (s : String) : JsonValue := .string s.toList

/-- The manifest of an install whose binaries have the given fingerprints. -/
def manifestData (b : Bundle) (o : Options) (cli mcpBinary : List Char) : JsonValue :=
  .object [("adapter_id".toList, string Contract.adapterId),
    ("adapter_version".toList, number Contract.adapterVersion),
    ("analysis_schema_version".toList, number Contract.analysisSchemaVersion),
    ("api_schema_version".toList, number Contract.apiSchemaVersion),
    ("cli_contract_version".toList, number Contract.cliContractVersion),
    ("cli_fingerprint".toList, .string cli),
    ("db_schema_version".toList, number Contract.dbSchemaVersion),
    ("fingerprint_algorithm".toList, string "fnv1a64"),
    ("installed_by".toList, string "irez"),
    ("installer_version".toList, string Contract.packageVersion),
    ("irez_version".toList, string Contract.irezVersion),
    ("mcp_contract_version".toList, number Contract.mcpContractVersion),
    ("mcp_fingerprint".toList, .string mcpBinary),
    ("registration_schema_version".toList, number 1),
    ("server".toList, serverConfig o),
    ("skill_fingerprint".toList,
      if o.installSkill then .string (skillFingerprint b) else .null),
    ("skill_version".toList, if o.installSkill then string Contract.packageVersion else .null),
    ("state_schema_version".toList, number Contract.dbSchemaVersion)]

/-- `file_fingerprint`. -/
def fileFingerprint (path : String) : Option (List UInt8) → Except Failure (List Char)
  | some bytes => .ok (fnv1a64 bytes)
  | none => .error (.error ("cannot read binary: " ++ path))

/-- The manifest that an install writes. -/
def manifestOf (b : Bundle) (o : Options) : Except Failure JsonValue := do
  let cli ← fileFingerprint o.cli b.cli
  let mcpBinary ← fileFingerprint o.mcpBinary b.mcpBinary
  return manifestData b o cli mcpBinary

/-- Where `fs::write` of the manifest fails: at opening the file, or later, with some text in it. -/
inductive ManifestFault where
  | opening
  | writing (left : List Char)
  deriving DecidableEq, Repr

def writeManifest (S : Serde) (b : Bundle) (o : Options) (fault : Option ManifestFault)
    (manifest : File) : Except Failure Unit × File :=
  match manifestOf b o with
  | .error e => (.error e, manifest)
  | .ok data =>
    match fault with
    | none => (.ok (), .text (S.toStringPretty data))
    | some .opening => (.error .io, manifest)
    | some (.writing left) => (.error .io, .text left)

/-! ## 5. The runs -/

/-- The step at which an install fails. -/
inductive InstallFault where
  | state
  | config (f : WriteFault)
  | skill (f : SkillFault)
  | manifest (f : ManifestFault)
  deriving DecidableEq, Repr

namespace InstallFault

def onConfig : Option InstallFault → Option WriteFault
  | some (.config f) => some f
  | _ => none

def onSkill : Option InstallFault → Option SkillFault
  | some (.skill f) => some f
  | _ => none

def onManifest : Option InstallFault → Option ManifestFault
  | some (.manifest f) => some f
  | _ => none

end InstallFault

/-- The configuration that `install` writes. -/
def installData (S : Serde) (o : Options) (h : Host) : Except Failure JsonValue := do
  let data ← readJsonc S o h.config
  register o (registrationOwned S h.manifest) data

def install (S : Serde) (windows : Bool) (b : Bundle) (o : Options) (fault : Option InstallFault)
    (h : Host) : Except Failure Unit × Host :=
  if fault = some .state then (.error .io, h)
  else
    match installData S o h with
    | .error e => (.error e, h)
    | .ok data =>
      match writeJsonConfig S windows (InstallFault.onConfig fault) h.config data with
      | (.error e, config) => (.error e, { h with config })
      | (.ok (), config) =>
        match if o.installSkill then linkSkill o (InstallFault.onSkill fault) h.skill
          else (.ok (), h.skill) with
        | (.error e, skill) => (.error e, { h with config, skill })
        | (.ok (), skill) =>
          let (answer, manifest) :=
            writeManifest S b o (InstallFault.onManifest fault) h.manifest
          (answer, { config, skill, manifest })

/-- The step at which an uninstall fails or is interrupted. -/
inductive UninstallFault where
  | config (f : WriteFault)
  | skill (left : SkillPath)
  | manifest
  deriving DecidableEq, Repr

namespace UninstallFault

def onConfig : Option UninstallFault → Option WriteFault
  | some (.config f) => some f
  | _ => none

def onSkill : Option UninstallFault → Option SkillPath
  | some (.skill left) => some left
  | _ => none

end UninstallFault

/-- The configuration that `uninstall` writes, if it writes one. -/
def uninstallData (S : Serde) (o : Options) (h : Host) : Except Failure (Option JsonValue) :=
  if h.config.exists then do
    let data ← readJsonc S o h.config
    unregister S h.manifest data
  else .ok none

def uninstall (S : Serde) (windows : Bool) (o : Options) (fault : Option UninstallFault)
    (h : Host) : Except Failure Unit × Host :=
  if registrationOwned S h.manifest = false then
    (.error (.error "refusing to uninstall an MCP registration not owned by this installer"), h)
  else
    match uninstallData S o h with
    | .error e => (.error e, h)
    | .ok edit =>
      match edit.elim (.ok (), h.config)
        (writeJsonConfig S windows (UninstallFault.onConfig fault) h.config) with
      | (.error e, config) => (.error e, { h with config })
      | (.ok (), config) =>
        match removeSkill (UninstallFault.onSkill fault) h.skill with
        | (.error e, skill) => (.error e, { h with config, skill })
        | (.ok (), skill) =>
          if h.manifest.exists && fault = some .manifest then
            (.error .io, { h with config, skill })
          else (.ok (), { config, skill, manifest := .absent })

/-! ## 6. Reading what was written -/

/-- `serde_json` reads a value back from the text it printed. This is asked of single values:
    built without its feature `float_roundtrip`, it may read a number of many digits back as
    another one. -/
def Serde.Reads (S : Serde) (v : JsonValue) : Prop := S.fromStr (S.toStringPretty v) = some v

/-- The text it printed is JSON alone, and a line end behind it changes nothing. -/
structure Serde.Prints (S : Serde) (v : JsonValue) : Prop where
  reads : S.Reads v
  newline : S.fromStr (S.toStringPretty v ++ ['\n']) = S.fromStr (S.toStringPretty v)
  bare : ∃ r : Rendering, r.Bare ∧ r.Renders v ∧ r.text = S.toStringPretty v

/-- A line end behind a text of JSON alone. -/
theorem jsoncToJson_newline {r : Rendering} {v : JsonValue} (hb : r.Bare) (h : r.Renders v) :
    jsoncToJson (r.text ++ ['\n']) = r.text ++ ['\n'] := by
  let line : Trivia := .space '\n' (by decide)
  let r' : Rendering := { r with gap := r.gap ++ [line] }
  have htext : r'.text = r.text ++ ['\n'] := by
    simp [r', Rendering.text, hb.tail, gapText, Trivia.text, line]
  have hbare : r'.Bare := by
    refine ⟨hb.gaps, hb.commas, ?_, hb.tail⟩
    intro x hx
    rcases List.mem_append.mp hx with hx | hx
    · exact hb.gap x hx
    · rw [List.mem_singleton.mp hx]
      rfl
  have hkept : jsoncToJson r'.text = r'.text := Rendering.Bare.kept hbare (Spells.orderly h)
  rwa [htext] at hkept

/-- **The configuration that was written is read back.** -/
theorem readJsonc_written {S : Serde} {v : JsonValue} (h : S.Prints v) (o : Options) :
    readJsonc S o (written S v) = .ok v := by
  obtain ⟨r, hb, hr, htext⟩ := h.bare
  have hkept := jsoncToJson_newline hb hr
  rw [htext] at hkept
  have hread : S.fromStr (S.toStringPretty v ++ ['\n']) = some v := h.newline.trans h.reads
  simp [readJsonc, written, hkept, hread]

theorem ownershipData_printed {S : Serde} {v : JsonValue} (h : S.Reads v) :
    ownershipData S (.text (S.toStringPretty v)) = some v := h

end Irez.Installer
