/-
  File:      Irez/Record.lean
  Subject:   The adapter's records and the outcome of one adapter call
             (adapter.h, the readers of service.cpp).

  The source passes records as JSON objects; every reader takes a field with
  `getString(..).value_or(..)`, `getInteger` or `json_string_param`. A record here
  holds the fields after that reading: a text that defaults to `""` when absent is
  a `String`, a column that is NULL when the field is absent is an `Option`.
-/
import Mathlib.Data.List.Basic

namespace Irez

/-! ## 1. Attributes -/

/-- A JSON leaf of an attributes object. -/
inductive AttrValue where
  | bool (b : Bool)
  | int (n : Int)
  | str (s : String)
  deriving DecidableEq, Repr

/-- A JSON object of attributes (`attributes_json`). -/
abbrev Attributes := List (String × AttrValue)

/-! ## 2. Records -/

/-- `{"record": "function"}`: one entry of the function catalog. -/
structure FunctionRecord where
  key : String
  ordinal : Int
  name : String
  declaration : Bool
  linkage : String
  signature : String
  bodyFingerprint : String
  deriving DecidableEq, Repr

/-- `{"record": "module"}`. -/
structure ModuleRecord where
  identifier : String
  sourceFile : String
  targetTriple : String
  dataLayout : String
  deriving DecidableEq, Repr

/-- `{"record": "entity"}`. -/
structure EntityRecord where
  kind : String
  localKey : String
  ordinal : Option Int
  name : Option String
  opcode : Option String
  llvmType : Option String
  exactText : Option String
  attributes : Attributes
  deriving DecidableEq, Repr

/-- `{"record": "relation"}`; `modality` and `precision` after their defaults
    `must` and `exact`. -/
structure RelationRecord where
  kind : String
  src : String
  dst : String
  ordinal : Option Int
  modality : String
  precision : String
  attributes : Attributes
  deriving DecidableEq, Repr

/-- `{"record": "source"}`. -/
structure SourceRecord where
  entity : String
  file : String
  line : Option Int
  column : Option Int
  discriminator : Option Int
  inlineDepth : Option Int
  scope : String
  deriving DecidableEq, Repr

/-- One capability: its name, status and (where it has one) precision. -/
structure CapabilityEntry where
  name : String
  status : String
  precision : Option String
  deriving DecidableEq, Repr

/-- One record of the stream. -/
inductive Record where
  | error (message : String)
  | capabilities (entries : List CapabilityEntry)
  | module (m : ModuleRecord)
  | function (f : FunctionRecord)
  | entity (e : EntityRecord)
  | relation (r : RelationRecord)
  | source (s : SourceRecord)
  deriving DecidableEq, Repr

/-! ## 3. Reading a stream -/

/-- The message of the first error record (service.cpp 319, 754). -/
def firstError (records : List Record) : Option String :=
  records.findSome? fun
    | .error message => some message
    | _ => none

/-- The last `module` record, as the loop at service.cpp 338 keeps it. -/
def moduleRecord (records : List Record) : Option ModuleRecord :=
  records.foldl (fun acc r => match r with
    | .module m => some m
    | _ => acc) none

/-- The last `capabilities` record. -/
def capabilitiesRecord (records : List Record) : Option (List CapabilityEntry) :=
  records.foldl (fun acc r => match r with
    | .capabilities c => some c
    | _ => acc) none

def functionRecords (records : List Record) : List FunctionRecord :=
  records.filterMap fun
    | .function f => some f
    | _ => none

def entityRecords (records : List Record) : List EntityRecord :=
  records.filterMap fun
    | .entity e => some e
    | _ => none

def relationRecords (records : List Record) : List RelationRecord :=
  records.filterMap fun
    | .relation r => some r
    | _ => none

def sourceRecords (records : List Record) : List SourceRecord :=
  records.filterMap fun
    | .source s => some s
    | _ => none

/-! ## 4. The adapter as the service sees it -/

/-- One adapter call: the records it emitted, or the text of the exception it threw. -/
abbrev Outcome := Except String (List Record)

/-- The two entry points of adapter.h, called with the path of the stored file. -/
structure Adapter where
  catalog : String → Outcome
  functionGraph : String → String → Outcome

/-- A record of a kind is read where the stream holds it. -/
theorem mem_readOff {α : Type} {read : Record → Option α} {make : α → Record}
    (h : ∀ r x, read r = some x ↔ r = make x) {records : List Record} {x : α} :
    x ∈ records.filterMap read ↔ make x ∈ records := by
  rw [List.mem_filterMap]
  constructor
  · intro hx
    obtain ⟨r, hr, hrx⟩ := hx
    rw [← (h r x).mp hrx]
    exact hr
  · intro hx
    exact ⟨make x, hx, (h _ x).mpr rfl⟩

theorem mem_entityRecords {records : List Record} {e : EntityRecord} :
    e ∈ entityRecords records ↔ .entity e ∈ records := by
  refine mem_readOff fun r x => ?_
  cases r <;> simp

theorem mem_relationRecords {records : List Record} {q : RelationRecord} :
    q ∈ relationRecords records ↔ .relation q ∈ records := by
  refine mem_readOff fun r x => ?_
  cases r <;> simp

theorem mem_sourceRecords {records : List Record} {s : SourceRecord} :
    s ∈ sourceRecords records ↔ .source s ∈ records := by
  refine mem_readOff fun r x => ?_
  cases r <;> simp

end Irez
