/-
  File:      Irez/Store.lean
  Subject:   `Store::ingest_file` (store.cpp 172-269) as a program over the file system and
             the state database.

  The call runs inside the IMMEDIATE transaction of `Service::ingest`: it reads and writes the
  tables of that transaction, and the files under the state directory.

  * `StoreOp`, `Ans` -- the operations and what they answer; `answer`, what an operation does
    where nothing fails, `Fault`, what it does where something does, `StoreSem`, both;
  * `publishFile` -- the temporary file, its flush, compare-or-rename, the directory flush;
  * `ingestFile` -- the call.

  Paths are relative to the state directory; the texts of errors carry it in front. This is the
  POSIX program: the flush of the directory (store.cpp 254-257) is compiled out on Windows.
-/
import Irez.Basis.Program
import Irez.Basis.Disk
import Irez.Statement
import Irez.Handle

open Irez.Basis

namespace Irez

/-! ## 1. Contents and hashes -/

abbrev Bytes := List UInt8

/-- `llvm::toHex(SHA256::hash(..))` in lower case: 64 hexadecimal digits. -/
structure Sha256 where
  hex : Bytes → String
  length : ∀ content, (hex content).length = 64
  digits : ∀ content, ∀ x ∈ (hex content).toList, x ∈ "0123456789abcdef".toList

/-- `path(..).extension()`: from the last dot of the file name, where that is not its first
    character. -/
def extension (path : String) : String :=
  let name := (path.toList.reverse.takeWhile (· ≠ '/')).reverse
  let tail := (name.reverse.takeWhile (· ≠ '.')).reverse
  let front := name.take (name.length - tail.length)
  if front = [] ∨ front = ['.'] ∨ name = ['.', '.'] then "" else "." ++ String.ofList tail

/-- `lower_suffix`. -/
def lowerSuffix (path : String) : String := String.ofList ((extension path).toList.map Char.toLower)

/-- The file a call reads: its path as given, and `absolute(source).lexically_normal()`. -/
structure Source where
  path : String
  absolutePath : String
  deriving DecidableEq, Repr

def Source.suffix (source : Source) : String := lowerSuffix source.path

/-- The suffixes `Service::ingest` lets pass. -/
def artifactSuffixes : List String := [".ll", ".bc"]

/-- `"artifacts/llvm" / (hex + suffix)`. -/
def destination (hex suffix : String) : String := "artifacts/llvm/" ++ hex ++ suffix

/-- `destination.string() + ".tmp-" + uuid4()`. -/
def temporary (destination uuid : String) : String := destination ++ ".tmp-" ++ uuid

/-- The row `ingest_file` inserts; the columns it does not name have their defaults. -/
def storedArtifact (hex investigation : String) (source : Source) : Artifact :=
  { id := "artifact:" ++ shortHash hex, investigationId := investigation, kind := "llvm"
    contentSha256 := hex, storedPath := destination hex source.suffix
    originalPath := source.absolutePath
    mediaType := if source.suffix = ".bc" then "application/llvm-bitcode" else "text/llvm"
    adapterId := some kAdapterId, adapterVersion := some kAdapterVersionString
    targetTriple := none, dataLayout := none, metadata := ⟨none, []⟩, catalogStatus := .stored
    catalogRunId := none, catalogErrorJson := none, catalogClaimOwner := none
    catalogClaimStartedAt := none, requestedIndexLevel := .catalog, completedIndexLevel := .none
    analysisSchemaVersion := kAnalysisSchemaVersion }

/-- `SELECT * FROM artifacts WHERE investigation_id=? AND content_sha256=?`. -/
def Tables.artifactWith (t : Tables) (investigationId hex : String) : Option Artifact :=
  lookup (fun a : Artifact => (a.investigationId, a.contentSha256)) (investigationId, hex) t.artifacts

/-! ## 2. Operations -/

inductive StoreOp where
  | readSource
  | readFile (path : String)
  /-- A `SELECT` of the transaction. -/
  | query
  | uuid4
  /-- `ofstream output(path, binary | trunc)`. -/
  | createFile (path : String)
  | writeFile (path : String) (content : Bytes)
  /-- `durable_sync` of a file. -/
  | syncFile (path : String)
  | fileExists (path : String)
  | removeFile (path : String)
  | renameFile (source target : String)
  /-- `durable_sync` of the directory. -/
  | syncDirectory
  | insert (row : Artifact)
  deriving DecidableEq, Repr

/-- Answers: `none` of a rename is success, its text the message of the error code; the calls
    of `std::filesystem` without an error code throw. -/
abbrev Ans : StoreOp → Type
  | .readSource => Option Bytes
  | .readFile _ => Option Bytes
  | .query => Except Thrown Tables
  | .uuid4 => String
  | .createFile _ => Bool
  | .writeFile _ _ => Bool
  | .syncFile _ => Bool
  | .fileExists _ => Except String Bool
  | .removeFile _ => Except String Unit
  | .renameFile _ _ => Option String
  | .syncDirectory => Bool
  | .insert _ => Except Thrown Unit

/-- What a call works on: the tables of its transaction, and the disk. -/
structure StoreState where
  db : Database
  disk : Disk String Bytes

/-- What an operation does where nothing fails: `source` is what the source file holds, `uuid`
    what is drawn. -/
def answer (source : Option Bytes) (uuid : String) (s : StoreState) : (op : StoreOp) → Ans op × StoreState
  | .readSource => (source, s)
  | .readFile path => ((s.disk.live path).map (·.content), s)
  | .query => (.ok s.db.toTables, s)
  | .uuid4 => (uuid, s)
  | .createFile path => (true, { s with disk := s.disk.create path [] })
  | .writeFile path content => (true, { s with disk := s.disk.write path content })
  | .syncFile path => (true, { s with disk := s.disk.flush path })
  | .fileExists path => (.ok (s.disk.live path).isSome, s)
  | .removeFile path => (.ok (), { s with disk := s.disk.remove path })
  | .renameFile source target => (none, { s with disk := s.disk.rename source target })
  | .syncDirectory => (true, { s with disk := s.disk.flushAll })
  | .insert row =>
    match exec noFaults (.insertArtifact row) s.db with
    | .ok db => (.ok (), { s with db := db })
    | .error e => (.error e, s)

/-- What an operation does where something fails: nothing, but for a write that fails halfway. -/
inductive Fault (s : StoreState) : (op : StoreOp) → Ans op → StoreState → Prop
  | readFile (path : String) : Fault s (.readFile path) none s
  | query (e : Thrown) : Fault s .query (.error e) s
  | createFile (path : String) : Fault s (.createFile path) false s
  | writeFile (path : String) (content written : Bytes) :
      Fault s (.writeFile path content) false { s with disk := s.disk.write path written }
  | syncFile (path : String) : Fault s (.syncFile path) false s
  | fileExists (path what : String) : Fault s (.fileExists path) (.error what) s
  | removeFile (path what : String) : Fault s (.removeFile path) (.error what) s
  | renameFile (source target message : String) :
      Fault s (.renameFile source target) (some message) s
  | syncDirectory : Fault s .syncDirectory false s
  | insert (row : Artifact) (e : Thrown) : Fault s (.insert row) (.error e) s

/-- The operations with a source file, and with failures where `faulty`. -/
def StoreSem (faulty : Prop) (source : Option Bytes) (s : StoreState) (op : StoreOp) (a : Ans op)
    (s' : StoreState) : Prop :=
  (∃ uuid, answer source uuid s op = (a, s')) ∨ (faulty ∧ Fault s op a s')

/-! ## 3. The call -/

abbrev StoreProgram := Program StoreOp Ans Thrown

namespace StoreProgram

open Program

abbrev ask (op : StoreOp) : StoreProgram (Ans op) := perform op

/-- `throw IrezError(message, 5)`. -/
def refuse {α : Type} (message : String) : StoreProgram α := fail (.irez { message := message })

/-- `SELECT …`: what the query finds in the tables. -/
def select {α : Type} (find : Tables → α) : StoreProgram α := do
  let rows : Except Thrown Tables ← ask .query
  match rows with
  | .ok t => pure (find t)
  | .error e => fail e

/-- `std::filesystem::exists(path)`. -/
def existsFile (path : String) : StoreProgram Bool := do
  let found : Except String Bool ← ask (.fileExists path)
  match found with
  | .ok b => pure b
  | .error what => fail (.std what)

/-- `std::filesystem::remove(path)`. -/
def remove (path : String) : StoreProgram Unit := do
  let removed : Except String Unit ← ask (.removeFile path)
  match removed with
  | .ok _ => pure ()
  | .error what => fail (.std what)

/-- The temporary file is removed, and the call throws. -/
def discard (path message : String) : StoreProgram Unit := do
  remove path
  refuse message

/-- `if (!ok) …`, of a branch that throws. -/
def require (ok : Bool) (otherwise : StoreProgram Unit) : StoreProgram Unit :=
  if ok then pure () else otherwise

variable (stateDir : String)

/-- `(state_dir_ / path).string()`. -/
def inStateDir (path : String) : String := stateDir ++ "/" ++ path

/-- The temporary file, written and flushed. -/
def writeTemporary (path : String) (content : Bytes) : StoreProgram Unit := do
  let created : Bool ← ask (.createFile path)
  require created (refuse "cannot create artifact temporary file")
  let written : Bool ← ask (.writeFile path content)
  require written (refuse "cannot write artifact temporary file")
  let flushed : Bool ← ask (.syncFile path)
  require flushed (discard path "cannot flush artifact temporary file")

/-- A file has the final name: it must have the content. -/
def compareFile (temporary destination : String) (content : Bytes) : StoreProgram Unit := do
  let prior : Option Bytes ← ask (.readFile destination)
  require (prior = some content)
    (discard temporary "artifact destination exists with different content")
  remove temporary

/-- The temporary file takes its final name, unless a file with its content has that. -/
def compareOrRename (temporary destination : String) (content : Bytes) : StoreProgram Unit := do
  if ← existsFile destination then compareFile temporary destination content
  else
    let error : Option String ← ask (.renameFile temporary destination)
    match error with
    | some message => discard temporary ("cannot atomically store artifact: " ++ message)
    | none => pure ()

/-- The content is stored under its final name, on the disk. -/
def publishFile (destination : String) (content : Bytes) : StoreProgram Unit := do
  let uuid : String ← ask .uuid4
  writeTemporary (temporary destination uuid) content
  compareOrRename (temporary destination uuid) destination content
  let flushed : Bool ← ask .syncDirectory
  require flushed (refuse "cannot flush artifact directory")

/-- The stored artifact with the content, where its backing file is intact. -/
def deduplicate (hash : Sha256) (hex : String) (existing : Artifact) :
    StoreProgram (Artifact × Bool) := do
  let stored : Option Bytes ← ask (.readFile existing.storedPath)
  match stored with
  | none => refuse ("deduplicated artifact backing file is missing: " ++
      inStateDir stateDir existing.storedPath)
  | some content =>
    if hash.hex content ≠ hex then
      refuse ("deduplicated artifact backing file hash mismatch: " ++
        inStateDir stateDir existing.storedPath)
    else pure (existing, false)

/-- The row of a stored file is inserted and read back. -/
def insertArtifact (row : Artifact) : StoreProgram (Artifact × Bool) := do
  let inserted : Except Thrown Unit ← ask (.insert row)
  match inserted with
  | .error e => fail e
  | .ok _ =>
    match ← select (·.artifact row.id) with
    | some row => pure (row, true)
    | none => fail (.std "bad optional access")

/-- `ingest_file` from the content of its file on. -/
def ingestContent (hash : Sha256) (source : Source) (content : Bytes) :
    StoreProgram (Artifact × Bool) := do
  match ← select (·.investigation) with
  | none => refuse "investigation is missing"
  | some inv =>
    match ← select (·.artifactWith inv.id (hash.hex content)) with
    | some existing => deduplicate stateDir hash (hash.hex content) existing
    | none =>
      let row := storedArtifact (hash.hex content) inv.id source
      match ← select (·.artifact row.id) with
      | some _ => refuse "artifact handle hash-prefix collision"
      | none =>
        publishFile row.storedPath content
        insertArtifact row

/-- `Store::ingest_file`. -/
def ingestFile (hash : Sha256) (source : Source) : StoreProgram (Artifact × Bool) := do
  let buffer : Option Bytes ← ask .readSource
  match buffer with
  | none => refuse ("cannot read artifact: " ++ source.path)
  | some content => ingestContent stateDir hash source content

end StoreProgram

end Irez
