/-
  File:      Irez/Queries.lean
  Subject:   The read commands of service.cpp: show, source, uses, slice, graph, guards,
             expand and context (966-1185, 1366-1668).

  A command materializes on demand (`ensureMaterialized`) and then only reads: each is
  `afterEnsure` of a function of the tables, so what it answers and what it writes are
  apart.

  * `read…` -- what a command reads; the rows its result is made of are definitions of their
    own (`showRelations`, `locations`, `useRows`, `guardRows`);
  * `readSlice_isSome` -- the turns `Tables.turns` suffice for every slice.
-/
import Irez.Slice
import Irez.Snapshot

open Irez.Basis

namespace Irez

/-! ## 1. Envelopes -/

/-- `truncation.reason`. -/
inductive Cut where
  | budget (reason : Reason)
  | perSinkBudget
  deriving DecidableEq, Repr

/-- `Envelope` around a result. -/
structure Envelope (ρ : Type) where
  command : String
  investigation : String
  target : String
  result : ρ
  capabilities : List CapabilityEntry := []
  boundaries : List String := []
  unknowns : List Unknown := []
  truncated : Bool := false
  reason : Option Cut := none
  visited : Int := 0
  budget : Int := 100
  evidence : List String := []
  expandable : List String := []
  deriving DecidableEq, Repr

/-- `throw IrezError(message, 2)` where the test fails. -/
def usage (test : Bool) (message : String) : Except Thrown Unit :=
  if test then .ok () else .error (.irez { message := message, exitCode := 2 })

def entityOrThrow (t : Tables) (handle : String) : Except Thrown Entity :=
  match t.entity handle with
  | some e => .ok e
  | none => .error (.irez (notFound "entity not found"))

/-- `a + b` of two `int64_t`. C++ leaves the sum undefined where it overflows. -/
def int64Add (a b : Int) : Option Int :=
  if -(2 ^ 63) ≤ a + b ∧ a + b < 2 ^ 63 then some (a + b) else none

/-- `budget + 1`: one row more than is shown. -/
def probe (budget : Int) : Option Int := int64Add budget 1

/-- `LIMIT n`: a negative limit is none. Nothing is promised of an undefined one; the usual
    arithmetic makes it negative. -/
def limit {ρ : Type} (n : Option Int) (rows : List ρ) : List ρ :=
  match n with
  | none => rows
  | some n => if n < 0 then rows else rows.take n.toNat

/-- The rows up to a budget, of those found with one more. -/
def visible {ρ : Type} (budget : Int) (rows : List ρ) : List ρ := rows.take budget.toNat

/-- The rows past the budget. -/
def beyond {ρ : Type} (budget : Int) (rows : List ρ) : List ρ := rows.drop budget.toNat

def truncates {ρ : Type} (budget : Int) (rows : List ρ) : Bool := budget < rows.length

/-- The rows within a budget come from those found, in their order. -/
theorem visible_sublist {ρ : Type} {budget : Int} {n : Option Int} {rows : List ρ} :
    List.Sublist (visible budget (limit n rows)) rows := by
  refine (List.take_sublist _ _).trans ?_
  unfold limit
  split
  · exact List.Sublist.refl _
  · split
    · exact List.Sublist.refl _
    · exact List.take_sublist _ _

/-- The probe finds all rows, or as many as it asks for. -/
theorem limit_probe {ρ : Type} {budget : Int} (h : 0 ≤ budget) (rows : List ρ) :
    limit (probe budget) rows = rows ∨
      limit (probe budget) rows = rows.take (budget.toNat + 1) := by
  have hb : (budget + 1).toNat = budget.toNat + 1 := by omega
  unfold limit probe int64Add
  split
  · exact .inl rfl
  · rename_i n hn
    split at hn
    · obtain rfl := Option.some.inj hn
      rw [if_neg (by omega), hb]
      exact .inr rfl
    · cases hn

theorem visible_probe {ρ : Type} {budget : Int} (h : 0 ≤ budget) (rows : List ρ) :
    visible budget (limit (probe budget) rows) = rows.take budget.toNat := by
  rcases limit_probe h rows with hl | hl
  · rw [hl, visible]
  · rw [hl, visible, List.take_take, Nat.min_eq_left (by omega)]

theorem truncates_probe {ρ : Type} {budget : Int} (h : 0 ≤ budget) (rows : List ρ) :
    truncates budget (limit (probe budget) rows) = decide (budget < rows.length) := by
  rcases limit_probe h rows with hl | hl
  · rw [hl, truncates]
  · rw [hl, truncates, List.length_take]
    exact decide_eq_decide.mpr (by omega)

/-- Where nothing is cut off, all rows are shown. -/
theorem visible_whole {ρ : Type} {budget : Int} {rows : List ρ}
    (h : truncates budget (limit (probe budget) rows) = false) :
    visible budget (limit (probe budget) rows) = rows := by
  have hle := Int.not_lt.mp (of_decide_eq_false h)
  have hb : 0 ≤ budget := le_trans (Int.natCast_nonneg _) hle
  rw [truncates_probe hb, decide_eq_false_iff_not] at h
  rw [visible_probe hb]
  exact List.take_of_length_le (by omega)

/-- `env.reason` of a query with a row budget. -/
def nodeCut (truncated : Bool) : Option Cut := if truncated then some (.budget .nodeBudget) else none

/-- `ensure_materialized`, and then a read of the tables it leaves. -/
def afterEnsure {α : Type} (env : Environment) (graph : String → String → Outcome)
    (d : MaterializeDraw) (handle : String) (read : Tables → Except Thrown α) (db : Database) :
    Database × Except Thrown α :=
  match ensureMaterialized env graph d handle db with
  | (db', .error e) => (db', .error e)
  | (db', .ok ()) => (db', read db'.toTables)

/-! ## 2. show -/

/-- `WHERE function_id=? AND …`. -/
def Tables.entitiesOf (t : Tables) (f : String) (p : Entity → Bool) : List Entity :=
  t.entities.filter fun e => e.functionId = some f && p e

/-- `ORDER BY kind,ordinal,dst_id`. -/
def Relation.showKey (r : Relation) : String ×ₗ WithBot Int ×ₗ String :=
  toLex (r.kind, toLex (r.ordinal, r.dstId))

/-- `SELECT … FROM relations WHERE src_id=? …`. -/
def Tables.showRelations (t : Tables) (handle : String) : List Relation :=
  (t.relations.filter (·.srcId = handle)).insertionSort fun r q => r.showKey ≤ q.showKey

/-- `source_locations s JOIN entities e ON e.id=s.entity_id WHERE e.function_id=? OR e.id=?`. -/
def Tables.summaryLocations (t : Tables) (f : String) : List SourceLocation :=
  t.sourceLocations.filter fun s => (t.entity s.entityId).any fun e => e.functionId = some f || e.id = f

structure FunctionSummary where
  handle : String
  name : Option String
  signature : Option String
  declaration : Bool
  materialization : EntityState
  blocks : Nat
  instructions : Nat
  returns : Nat
  calls : Nat
  locations : Nat
  files : List String
  deriving DecidableEq, Repr

inductive ShowResult where
  | exact (entity : Entity) (relations : List SliceEdge)
  | summary (s : FunctionSummary)
  | children (function kind : String) (items : List Entity)
  deriving DecidableEq, Repr

/-- What a view shows: the result, the relation rows whose runs and kinds are collected, and
    the children past the budget. -/
structure ShowBody where
  result : ShowResult
  rows : List Relation
  truncated : Bool
  boundaries : List String
  deriving DecidableEq, Repr

def functionSummary (t : Tables) (entity : Entity) (handle : String) : FunctionSummary :=
  { handle := handle
    name := entity.name
    signature := entity.llvmType
    declaration := entity.materialization = .declarationOnly
    materialization := entity.materialization
    blocks := (t.entitiesOf handle (·.kind = "basic_block")).length
    instructions := (t.entitiesOf handle (·.kind = "instruction")).length
    returns := (t.entitiesOf handle (·.opcode = some "ret")).length
    calls := (t.entitiesOf handle (·.opcode = some "call")).length
    locations := (t.summaryLocations handle).length
    files := (sortedUnique ((t.summaryLocations handle).map (·.file))).take 5 }

/-- The children a kind names. -/
def childPredicate (kind : String) (e : Entity) : Bool :=
  if kind = "return" then e.opcode = some "ret"
  else if kind = "call" then e.opcode = some "call"
  else e.kind = "basic_block"

/-- `ORDER BY e.ordinal,e.id`. -/
def Entity.ordinalKey (e : Entity) : WithBot Int ×ₗ String := toLex (e.ordinal, e.id)

def orderedByOrdinal (rows : List Entity) : List Entity :=
  rows.insertionSort fun x y => x.ordinalKey ≤ y.ordinalKey

def showChildren (t : Tables) (handle kind : String) (budget : Int) : Except Thrown ShowBody := do
  usage (kind = "block" || kind = "return" || kind = "call") ("invalid show child kind: " ++ kind)
  let children := limit (probe budget) (orderedByOrdinal (t.entitiesOf handle (childPredicate kind)))
  .ok { result := .children handle kind (visible budget children), rows := []
        truncated := truncates budget children, boundaries := (beyond budget children).map (·.id) }

def showBody (t : Tables) (entity : Entity) (handle view : String) (kind : Option String)
    (budget : Int) : Except Thrown ShowBody :=
  if entity.kind ≠ "function" || view = "exact" then
    .ok { result := .exact entity ((t.showRelations handle).map (·.edge))
          rows := t.showRelations handle, truncated := false, boundaries := [] }
  else if view = "summary" then
    -- SELECT DISTINCT analysis_run_id,kind: the sets below make the rows distinct
    .ok { result := .summary (functionSummary t entity handle), rows := t.relationsOf handle
          truncated := false, boundaries := [] }
  else showChildren t handle (kind.getD "block") budget

/-- Everything of `show` after `ensure_materialized`. -/
def readShow (handle view : String) (kind : Option String) (budget : Int) (t : Tables) :
    Except Thrown (Envelope ShowResult) := do
  let entity ← entityOrThrow t handle
  usage (view = "summary" || view = "exact" || view = "children") ("invalid show view: " ++ view)
  usage (0 ≤ budget) "--budget-nodes must be non-negative"
  usage (view ≠ "children" || entity.kind = "function")
    "show --view children requires a function handle"
  usage (kind.isNone || view = "children") "show --kind requires --view children"
  let body ← showBody t entity handle view kind budget
  let inv ← investigationId t
  .ok { command := "show", investigation := inv, target := handle, result := body.result
        truncated := body.truncated, budget := budget
        visited := if body.truncated then budget else 0
        reason := nodeCut body.truncated, boundaries := body.boundaries
        expandable := if entity.kind = "function" && entity.materialization = .catalogOnly
          then [handle] else []
        capabilities := relationCapabilities (body.rows.map (·.kind))
        evidence := evidenceRefs entity.artifactId (body.rows.map (·.analysisRunId)) }

/-! ## 3. source -/

/-- A row of the answer of `source`. -/
structure SourceLine where
  file : String
  line : Option Int
  columnNo : Option Int
  discriminator : Option Int
  inlineDepth : Option Int
  scopeName : Option String
  deriving DecidableEq, Repr

def SourceLocation.shown (s : SourceLocation) : SourceLine :=
  ⟨s.file, s.line, s.columnNo, s.discriminator, s.inlineDepth, s.scopeName⟩

/-- `ORDER BY inline_depth`. -/
def SourceLocation.depthKey (s : SourceLocation) : WithBot Int := s.inlineDepth

/-- `FROM source_locations WHERE entity_id=? …`. -/
def Tables.locations (t : Tables) (handle : String) : List SourceLocation :=
  (t.sourceLocations.filter (·.entityId = handle)).insertionSort fun s q => s.depthKey ≤ q.depthKey

def sourceUnknown : Unknown :=
  { kind := some "source_mapping", relation := none, status := "unavailable", reason := "",
    hint := none }

/-- Everything of `source_on` after `ensure_materialized`. -/
def readSource (handle : String) (t : Tables) : Except Thrown (Envelope (List SourceLine)) := do
  let entity ← entityOrThrow t handle
  let inv ← investigationId t
  .ok { command := "source", investigation := inv, target := handle
        result := (t.locations handle).map (·.shown)
        unknowns := if t.locations handle = [] then [sourceUnknown] else []
        capabilities := [⟨"source_mapping", "supported", some "partial"⟩]
        evidence := evidenceRefs entity.artifactId ((t.locations handle).map (·.analysisRunId)) }

/-! ## 4. uses -/

/-- A row of the answer of `uses`. -/
structure UseRow where
  user : String
  ordinal : Option Int
  opcode : Option String
  exactText : Option String
  deriving DecidableEq, Repr

/-- `ORDER BY r.src_id,r.ordinal`. -/
def Relation.useKey (r : Relation) : String ×ₗ WithBot Int := toLex (r.srcId, r.ordinal)

/-- `FROM relations r JOIN entities e ON e.id=r.src_id WHERE r.dst_id=? AND
    r.kind='llvm.operand' …`. -/
def Tables.operandUses (t : Tables) (handle : String) : List Relation :=
  (t.relations.filter fun r => r.dstId = handle && r.kind = "llvm.operand" &&
    (t.entity r.srcId).isSome).insertionSort fun r q => r.useKey ≤ q.useKey

def Tables.useRow (t : Tables) (r : Relation) : UseRow :=
  ⟨r.srcId, r.ordinal, (t.entity r.srcId).bind (·.opcode), (t.entity r.srcId).bind (·.exactText)⟩

/-- The rows `uses` finds with its budget. -/
def Tables.useRows (t : Tables) (handle : String) (budget : Int) : List Relation :=
  limit (probe budget) (t.operandUses handle)

/-- Everything of `uses` after `ensure_materialized`. -/
def readUses (handle : String) (budget : Int) (t : Tables) : Except Thrown (Envelope (List UseRow)) := do
  let entity ← entityOrThrow t handle
  let rows := t.useRows handle budget
  let inv ← investigationId t
  .ok { command := "uses", investigation := inv, target := handle
        result := (visible budget rows).map t.useRow
        visited := if truncates budget rows then budget else rows.length
        budget := budget, truncated := truncates budget rows
        reason := nodeCut (truncates budget rows)
        boundaries := (beyond budget rows).map (·.srcId)
        capabilities := relationCapabilities ["llvm.operand"]
        evidence := evidenceRefs entity.artifactId ((visible budget rows).map (·.analysisRunId)) }

/-! ## 5. slice and graph -/

/-- Turns that suffice for every slice: a turn takes a node, and a node is met by a row. -/
def Tables.turns (t : Tables) : Nat := t.relations.length + 1

theorem readSlice_isSome (t : Tables) (handle direction : String) (relations : List String)
    (budgetNodes budgetDepth : Int) :
    (readSlice t t.turns handle direction relations budgetNodes budgetDepth).isSome = true := by
  unfold readSlice
  cases t.entity handle with
  | none => rfl
  | some target =>
    cases hs : checkSupported relations with
    | error e => simp only [Option.isSome_some]
    | ok u =>
      have hpool : (handle :: (t.sliceEdges target.scope (traversedKinds t target.scope
          (requestedKinds relations))).map (Relation.nxt direction)).length ≤
          (Search.initial handle).seen.length + t.turns := by
        have hle : (t.sliceEdges target.scope (traversedKinds t target.scope
            (requestedKinds relations))).length ≤ t.relations.length := by
          unfold Tables.sliceEdges
          split
          · exact Nat.zero_le _
          · exact List.length_filter_le _ _
        rw [List.length_cons, List.length_map, Tables.turns]
        omega
      have h0 : Search.Sound (t.adjacency target.scope (traversedKinds t target.scope
          (requestedKinds relations)) direction) (Relation.nxt direction) budgetNodes budgetDepth
          handle (Search.initial handle) := .initial handle
      obtain ⟨s, hrun⟩ := h0.run_total (fun k v hv => order_subset hv) hpool
      simp only [hrun, Option.map_some, Option.isSome_some]

/-- Everything of `slice_on` after `ensure_materialized`. -/
def readSliceAll (handle direction : String) (relations : List String)
    (budgetNodes budgetDepth : Int) (t : Tables) : Except Thrown SliceResponse :=
  (readSlice t t.turns handle direction relations budgetNodes budgetDepth).get
    (readSlice_isSome t handle direction relations budgetNodes budgetDepth)

/-- The result of `slice` and, with its nodes alone, of `graph --format exact-ir`. -/
inductive SliceResult where
  | graph (nodes : List Entity) (relations : List SliceEdge) (direction : String)
      (budgetDepth : Int)
  | exactIr (rows : List (String × Option String))
  deriving DecidableEq, Repr

def SliceResponse.envelope (out : SliceResponse) : Envelope SliceResult :=
  { command := "slice", investigation := out.investigation, target := out.target
    result := .graph out.nodes out.relations out.direction out.budgetDepth
    capabilities := out.capabilities, boundaries := out.boundaries, unknowns := out.unknowns
    truncated := out.truncated, reason := out.reason.map .budget, visited := out.visited
    budget := out.budget, evidence := out.evidence, expandable := out.expandable }

def readSliceEnvelope (handle direction : String) (relations : List String)
    (budgetNodes budgetDepth : Int) (t : Tables) : Except Thrown (Envelope SliceResult) :=
  (readSliceAll handle direction relations budgetNodes budgetDepth t).map (·.envelope)

/-- What `graph` makes of the response of its slice. -/
def SliceResponse.graphEnvelope (format : String) (out : SliceResponse) : Envelope SliceResult :=
  { out.envelope with
    command := "graph"
    result := if format = "exact-ir" then .exactIr (out.nodes.map fun e => (e.id, e.exactText))
      else out.envelope.result }

def readGraph (handle direction : String) (budget : Int) (format : String) (t : Tables) :
    Except Thrown (Envelope SliceResult) :=
  (readSliceAll handle direction ["operand"] budget 12 t).map (·.graphEnvelope format)

/-! ## 6. guards -/

/-- A row of the answer of `guards`. -/
structure GuardRow where
  terminator : String
  requiredSuccessor : Option Int
  exactText : Option String
  opcode : Option String
  attributes : Attributes
  predicate : Option String
  deriving DecidableEq, Repr

/-- `SELECT dst_id FROM relations WHERE src_id=? AND kind='llvm.operand' AND ordinal=?`. -/
def Tables.operandAt (t : Tables) (handle : String) (ordinal : Int) : Option Relation :=
  t.relations.find? fun r =>
    r.srcId = handle && r.kind = "llvm.operand" && r.ordinal = some ordinal

/-- A terminator that has a predicate: a `switch`, or a `br` with two successors. -/
def Tables.branches (t : Tables) (terminator : String) : Bool :=
  (t.entity terminator).any fun e =>
    e.opcode = some "switch" || (e.opcode = some "br" &&
      (t.relations.filter fun r =>
        r.srcId = terminator && r.kind = "llvm.cfg-successor").length = 2)

/-- The row `branch_predicate` reads its value from. -/
def Tables.predicateRow (t : Tables) (terminator : String) : Option Relation :=
  if t.branches terminator then t.operandAt terminator 0 else none

/-- The block of an instruction, and the handle itself of anything else. -/
def guardedBlock (target : Entity) (handle : String) : String :=
  if target.kind = "instruction" then target.blockId.getD handle else handle

/-- `artifact_has_cd`. -/
def guardsExact (t : Tables) (target : Entity) : Bool :=
  target.scope.any fun f => t.completed f "control_dependence"

/-- The terminator of a row: what a block depends on, or what precedes it. -/
def guardTerminator (exact : Bool) (r : Relation) : String := if exact then r.dstId else r.srcId

/-- `ORDER BY r.dst_id,r.ordinal`, and by `src_id` in the fallback. -/
def Relation.guardKey (exact : Bool) (r : Relation) : String ×ₗ WithBot Int :=
  toLex (guardTerminator exact r, r.ordinal)

/-- The rows of `guards`, in their order: the control dependences of a block where they are
    completed, else the CFG edges to it. -/
def Tables.guardRelations (t : Tables) (exact : Bool) (block : String) : List Relation :=
  (t.relations.filter fun r =>
    (if exact then r.kind = "llvm.control-dependence" && r.srcId = block
      else r.kind = "llvm.cfg-successor" && r.dstId = block) &&
    (t.entity (guardTerminator exact r)).isSome).insertionSort fun r q =>
      r.guardKey exact ≤ q.guardKey exact

def Tables.guardRow (t : Tables) (exact : Bool) (r : Relation) : GuardRow :=
  let terminator := guardTerminator exact r
  { terminator := terminator, requiredSuccessor := r.ordinal
    exactText := (t.entity terminator).bind (·.exactText)
    opcode := (t.entity terminator).bind (·.opcode), attributes := r.attributes
    predicate := (t.predicateRow terminator).map (·.dstId) }

/-- The rows `guards` finds with its budget. -/
def Tables.guardRows (t : Tables) (target : Entity) (handle : String) (budget : Int) :
    List Relation :=
  limit (probe budget) (t.guardRelations (guardsExact t target) (guardedBlock target handle))

def guardsUnknown : Unknown :=
  { kind := some "control_dependence", relation := none, status := ""
    reason := "function has no completed control-dependence capability; reindex with a " ++
      "CD-capable adapter for exact guards"
    hint := none }

/-- Everything of `guards` after `ensure_materialized`. -/
def readGuards (handle : String) (budget : Int) (t : Tables) :
    Except Thrown (Envelope (List GuardRow)) := do
  let target ← entityOrThrow t handle
  let exact := guardsExact t target
  let rows := t.guardRows target handle budget
  let inv ← investigationId t
  .ok { command := "guards", investigation := inv, target := handle
        result := (visible budget rows).map (t.guardRow exact)
        capabilities :=
          if exact then [⟨"control_guards", "supported", some "exact"⟩]
          else [⟨"control_guards", "partial", some "conservative"⟩]
        unknowns := if exact then [] else [guardsUnknown]
        visited := if truncates budget rows then budget else (visible budget rows).length
        budget := budget, truncated := truncates budget rows
        reason := nodeCut (truncates budget rows)
        boundaries := (beyond budget rows).map (guardTerminator exact)
        evidence := evidenceRefs target.artifactId ((visible budget rows).map (·.analysisRunId)) }

/-! ## 7. expand -/

/-- The result of `expand`: of a call it cannot follow, or of the `materialize` it makes. -/
inductive Expanded where
  | unknown
  | external
  | materialized (response : Materialized)
  deriving DecidableEq, Repr

def expandUnknown : Unknown :=
  { kind := some "indirect_or_non_call", relation := none, status := "", reason := "",
    hint := none }

/-- `r.kind='llvm.calls'` of a source, joined with the entity called: the first row. -/
def Tables.callRow (t : Tables) (handle : String) : Option Relation :=
  t.relations.find? fun r =>
    r.srcId = handle && r.kind = "llvm.calls" && (t.entity r.dstId).isSome

/-- `object->getBoolean("external").value_or(false)`. -/
def Relation.external (r : Relation) : Bool := r.attributes.lookup "external" = some (.bool true)

/-- What `expand` does with an entity. -/
inductive Expansion where
  | materialize (handle : String)
  | unknown
  | external (call : Relation)
  deriving DecidableEq, Repr

/-- The decision of `expand`. -/
def expansion (t : Tables) (entity : Entity) (handle : String) : Expansion :=
  if entity.kind = "function" then .materialize handle
  else
    match t.callRow handle with
    | none => .unknown
    | some call =>
      if call.external || (t.entity call.dstId).all (·.kind ≠ "function") then .external call
      else .materialize call.dstId

/-- The run a `materialize` response refers to. -/
def Materialized.runs : Materialized → List (Option String)
  | .cached run => [run]
  | .declarationOnly => []
  | .published run _ _ => [some run]

/-- The response of `materialize`, under the name of `expand`. -/
def expandedEnvelope (inv function artifactId : String) (response : Materialized) :
    Envelope Expanded :=
  { command := "expand", investigation := inv, target := function
    result := .materialized response, evidence := evidenceRefs artifactId response.runs }

/-- `Service::expand`. -/
def expand (env : Environment) (graph : String → String → Outcome) (d : MaterializeDraw)
    (handle : String) (db : Database) : Database × Except Thrown (Envelope Expanded) :=
  match db.entity handle with
  | none => (db, .error (.irez (notFound "entity not found")))
  | some entity =>
    match expansion db.toTables entity handle with
    | .unknown =>
      (db, (investigationId db.toTables).map fun inv =>
        { command := "expand", investigation := inv, target := handle, result := .unknown
          unknowns := [expandUnknown], evidence := [entity.artifactId] })
    | .external call =>
      (db, (investigationId db.toTables).map fun inv =>
        { command := "expand", investigation := inv, target := handle, result := .external
          capabilities := relationCapabilities ["llvm.calls"]
          evidence := evidenceRefs entity.artifactId [call.analysisRunId] })
    | .materialize function =>
      match materialize env graph d function false db with
      | (db', .error e) => (db', .error e)
      | (db', .ok response) =>
        -- the artifact of the function's row, as `materialize` has read it
        (db', (investigationId db'.toTables).map fun inv =>
          expandedEnvelope inv function ((db.entity function).elim "" (·.artifactId)) response)

/-! ## 8. The commands -/

section Commands

variable (env : Environment) (graph : String → String → Outcome) (d : MaterializeDraw)

def showQuery (handle view : String) (kind : Option String) (budget : Int) (db : Database) :
    Database × Except Thrown (Envelope ShowResult) :=
  afterEnsure env graph d handle (readShow handle view kind budget) db

def sourceQuery (handle : String) (db : Database) :
    Database × Except Thrown (Envelope (List SourceLine)) :=
  afterEnsure env graph d handle (readSource handle) db

def usesQuery (handle : String) (budget : Int) (db : Database) :
    Database × Except Thrown (Envelope (List UseRow)) :=
  afterEnsure env graph d handle (readUses handle budget) db

def sliceQuery (handle direction : String) (relations : List String) (budgetNodes budgetDepth : Int)
    (db : Database) : Database × Except Thrown (Envelope SliceResult) :=
  afterEnsure env graph d handle
    (readSliceEnvelope handle direction relations budgetNodes budgetDepth) db

def graphQuery (handle direction : String) (budget : Int) (format : String) (db : Database) :
    Database × Except Thrown (Envelope SliceResult) :=
  afterEnsure env graph d handle (readGraph handle direction budget format) db

def guardsQuery (handle : String) (budget : Int) (db : Database) :
    Database × Except Thrown (Envelope (List GuardRow)) :=
  afterEnsure env graph d handle (readGuards handle budget) db

/-- **A slice with turns enough is the slice of the traversal.** -/
theorem sliceOn_eq (handle direction : String) (relations : List String)
    (budgetNodes budgetDepth : Int) (db : Database) :
    sliceOn env graph d (ensureMaterialized env graph d handle db).1.turns handle direction relations
        budgetNodes budgetDepth db =
      some (afterEnsure env graph d handle
        (readSliceAll handle direction relations budgetNodes budgetDepth) db) := by
  unfold sliceOn afterEnsure
  rcases ensureMaterialized env graph d handle db with ⟨db', e | u⟩
  · rfl
  · show Option.map _ (readSlice db'.toTables db'.turns handle direction relations budgetNodes
      budgetDepth) = some (db', readSliceAll handle direction relations budgetNodes budgetDepth _)
    have hsome : readSlice db'.toTables db'.turns handle direction relations budgetNodes budgetDepth =
        some (readSliceAll handle direction relations budgetNodes budgetDepth db'.toTables) :=
      (Option.some_get _).symm
    rw [hsome]
    rfl

end Commands

/-! ## 9. context -/

structure Context where
  entity : ShowResult
  source : List SourceLine
  valueGraph : SliceResult
  observation : Unknown
  deriving DecidableEq, Repr

def observationUnavailable : Unknown :=
  { kind := none, relation := none, status := "unavailable"
    reason := "no external runtime observation was provided", hint := none }

def observationUnknown : Unknown :=
  { kind := some "runtime_observation", relation := none, status := "unavailable", reason := "",
    hint := none }

/-- The first occurrence of each value, in order. -/
def firstOccurrences {α : Type} [DecidableEq α] (values : List α) : List α :=
  values.foldl (fun kept value => if value ∈ kept then kept else kept ++ [value]) []

def contextEnvelope (handle : String) (budget : Int) (shown : Envelope ShowResult)
    (src : Envelope (List SourceLine)) (valueGraph : Envelope SliceResult) : Envelope Context :=
  { command := "context", investigation := shown.investigation, target := handle
    result := ⟨shown.result, src.result, valueGraph.result, observationUnavailable⟩
    capabilities := valueGraph.capabilities ++ src.capabilities
    boundaries := valueGraph.boundaries
    unknowns := src.unknowns ++ valueGraph.unknowns ++ [observationUnknown]
    visited := valueGraph.visited, truncated := valueGraph.truncated, reason := valueGraph.reason
    budget := budget
    evidence := firstOccurrences (shown.evidence ++ src.evidence ++ valueGraph.evidence)
    expandable := valueGraph.expandable }

/-- `Service::context`: three calls one after the other, each with draws of its own. -/
def contextQuery (env : Environment) (graph : String → String → Outcome)
    (draw : Nat → MaterializeDraw) (handle : String) (budget : Int) (db : Database) :
    Database × Except Thrown (Envelope Context) :=
  match showQuery env graph (draw 0) handle "summary" none 100 db with
  | (db₁, .error e) => (db₁, .error e)
  | (db₁, .ok shown) =>
    match sourceQuery env graph (draw 1) handle db₁ with
    | (db₂, .error e) => (db₂, .error e)
    | (db₂, .ok src) =>
      match graphQuery env graph (draw 2) handle "backward" budget "json" db₂ with
      | (db₃, .error e) => (db₃, .error e)
      | (db₃, .ok valueGraph) => (db₃, .ok (contextEnvelope handle budget shown src valueGraph))

end Irez
