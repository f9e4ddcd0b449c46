/-
  File:      Irez/Trace.lean
  Subject:   `trace_return`, `trace_stores` and `run_trace` (service.cpp 1670-2131).

  A trace makes one slice and one source query for each sink, and reads the operands of the
  sink and the call relations of the call instructions visited on the side.

  * `traceSink` -- the turn of one sink: the two queries and the site built from them;
  * `runTrace` -- the turns, and the envelope that puts the sites together.
-/
import Mathlib.Algebra.GroupWithZero.Nat
import Irez.Queries

open Irez.Basis

namespace Irez

/-! ## 1. Sections -/

def knownSections : List String :=
  ["chain", "calls", "source", "nodes", "relations", "boundaries", "flags"]

/-- The sections of a `detail`. -/
def detailSections (detail : String) : List String :=
  if detail = "summary" then ["chain", "calls", "source", "boundaries"]
  else ["calls", "source", "nodes", "relations", "boundaries"]

/-- `resolve_trace_sections`: the set, in its order. -/
def resolveTraceSections (detail : String) (includes : List String) :
    Except Thrown (List String) :=
  match includes.find? (· ∉ knownSections) with
  | some name =>
    .error (.irez { message := "unknown trace include section: " ++ name, exitCode := 2 })
  | none => .ok (sortedUnique (detailSections detail ++ includes))

/-! ## 2. Sinks -/

inductive SinkKind where
  | ret
  | store
  deriving DecidableEq, Repr

def SinkKind.text : SinkKind → String
  | .ret => "return"
  | .store => "store"

def SinkKind.command : SinkKind → String
  | .ret => "trace-return"
  | .store => "trace-stores"

/-- `compact_entity`; `handle` and `id` are one text. -/
structure Compact where
  handle : String
  kind : String
  name : Option String
  opcode : Option String
  llvmType : Option String
  functionId : Option String
  blockId : Option String
  ordinal : Option Int
  deriving DecidableEq, Repr

def Entity.compact (e : Entity) : Compact :=
  ⟨e.id, e.kind, e.name, e.opcode, e.llvmType, e.functionId, e.blockId, e.ordinal⟩

/-- `value_shape_of`. -/
def valueShapeOf (e : Entity) : String :=
  if startsWith "<" (e.llvmType.getD "") then "vector" else "scalar"

/-- The row `sink_operand` reads: `FROM relations r JOIN entities e ON e.id=r.dst_id WHERE
    r.src_id=? AND r.kind='llvm.operand' AND r.ordinal=?`. -/
def Tables.sinkOperand (t : Tables) (sink : String) (ordinal : Int) : Option Relation :=
  t.relations.find? fun r => r.srcId = sink && r.kind = "llvm.operand" &&
    r.ordinal = some ordinal && (t.entity r.dstId).isSome

/-- The entity of that row. -/
def Tables.operandEntity (t : Tables) (sink : String) (ordinal : Int) : Option Entity :=
  (t.sinkOperand sink ordinal).bind fun r => t.entity r.dstId

/-! ## 3. Calls -/

inductive BoundaryStatus where
  | internal
  | external
  | unknown
  deriving DecidableEq, Repr

inductive BoundaryReason where
  | materialization (state : EntityState)
  | targetNotIndexed
  deriving DecidableEq, Repr

structure CallBoundary where
  call : String
  target : String
  modality : String
  precision : String
  targetName : Option String
  targetLlvmType : Option String
  reason : BoundaryReason
  status : BoundaryStatus
  expandable : Bool
  deriving DecidableEq, Repr

/-- `ORDER BY ordinal,dst_id`. -/
def Relation.callKey (r : Relation) : WithBot Int ×ₗ String := toLex (r.ordinal, r.dstId)

/-- `FROM relations WHERE src_id=? AND kind='llvm.calls' …`. -/
def Tables.callRelations (t : Tables) (call : String) : List Relation :=
  (t.relations.filter fun r => r.srcId = call && r.kind = "llvm.calls").insertionSort fun r q =>
    r.callKey ≤ q.callKey

/-- The entry of `call_boundaries` for one relation. -/
def Tables.callBoundary (t : Tables) (call : String) (r : Relation) : CallBoundary :=
  match t.entity r.dstId with
  | some target =>
    { call := call, target := r.dstId, modality := r.modality, precision := r.precision
      targetName := target.name, targetLlvmType := target.llvmType
      reason := .materialization target.materialization
      status := if target.materialization = .declarationOnly then .external else .internal
      expandable := target.materialization ≠ .declarationOnly }
  | none =>
    { call := call, target := r.dstId, modality := r.modality, precision := r.precision
      targetName := none, targetLlvmType := none, reason := .targetNotIndexed
      status := .unknown, expandable := false }

/-- The nodes of a slice that a trace takes for calls. -/
def SliceResponse.callNodes (out : SliceResponse) : List Entity :=
  out.nodes.filter (·.opcode = some "call")

/-- The call relations of the nodes of a slice, each with its call. -/
def Tables.tracedCalls (t : Tables) (out : SliceResponse) : List (String × Relation) :=
  out.callNodes.flatMap fun e => (t.callRelations e.id).map fun r => (e.id, r)

/-! ## 4. Sites -/

structure FlagRow where
  handle : String
  opcode : String
  flags : List String
  deriving DecidableEq, Repr

/-- The attributes of an instruction that are `true`. -/
def Entity.activeFlags (e : Entity) : List String :=
  (e.attributes.filter (·.2 = .bool true)).map (·.1)

/-- The flags of the nodes that are instructions and have some. -/
def SliceResponse.flagRows (out : SliceResponse) : List FlagRow :=
  (out.nodes.filter fun e => e.opcode.getD "" ≠ "" && e.activeFlags ≠ []).map fun e =>
    ⟨e.id, e.opcode.getD "", e.activeFlags⟩

/-- `value_graph` of a site. -/
structure SiteGraph where
  direction : String
  budgetDepth : Int
  nodes : Option (List Compact)
  relations : Option (List SliceEdge)
  deriving DecidableEq, Repr

structure SiteTruncation where
  truncated : Bool
  reason : Option Reason
  visitedNodes : Nat
  budgetNodes : Int
  budgetDepth : Int
  deriving DecidableEq, Repr

/-- A site; a section that is not requested is absent. `operand` is the stored value of a
    store, and `pointer` its destination. -/
structure Site where
  sink : Compact
  operand : Option Compact
  pointer : Option Compact
  valueShape : String
  nodeCount : Nat
  relationCount : Nat
  chain : Option (List Compact)
  valueGraph : Option SiteGraph
  flags : Option (List FlagRow)
  source : Option (List SourceLine)
  boundaries : Option (List String)
  truncation : SiteTruncation
  directCalls : Option (List Compact)
  callBoundaries : Option (List CallBoundary)
  deriving DecidableEq, Repr

/-- What a trace is asked for. -/
structure TraceRequest where
  function : Entity
  sinkKind : SinkKind
  sections : List String
  detail : String
  budgetNodes : Int
  budgetDepth : Int

/-- `if (want_…)`. -/
def TraceRequest.want {α : Type} (req : TraceRequest) (name : String) (a : α) : Option α :=
  if name ∈ req.sections then some a else none

def traceSite (req : TraceRequest) (t : Tables) (sink : Entity) (traced : SliceResponse)
    (located : Envelope (List SourceLine)) : Site :=
  { sink := sink.compact
    operand := (t.operandEntity sink.id 0).map (·.compact)
    pointer := match req.sinkKind with
      | .ret => none
      | .store => (t.operandEntity sink.id 1).map (·.compact)
    valueShape := (t.operandEntity sink.id 0).elim "void" valueShapeOf
    nodeCount := traced.nodes.length
    relationCount := traced.relations.length
    chain := req.want "chain" (traced.nodes.map (·.compact))
    valueGraph :=
      if "nodes" ∈ req.sections ∨ "relations" ∈ req.sections then
        some ⟨traced.direction, traced.budgetDepth, req.want "nodes" (traced.nodes.map (·.compact)),
          req.want "relations" traced.relations⟩
      else none
    flags := req.want "flags" traced.flagRows
    source := req.want "source" located.result
    boundaries := req.want "boundaries" traced.boundaries
    truncation := ⟨traced.truncated, traced.reason, traced.visited, req.budgetNodes, req.budgetDepth⟩
    directCalls := req.want "calls" (traced.callNodes.map (·.compact))
    callBoundaries := req.want "calls"
      ((t.tracedCalls traced).map fun (call, r) => t.callBoundary call r) }

/-- The turn of one sink: what its queries answered, and what was read on the side. -/
structure Traced where
  slice : SliceResponse
  source : Envelope (List SourceLine)
  site : Site
  callRuns : List (Option String)

/-- One turn of the loop over the sinks. -/
def traceSink (env : Environment) (graph : String → String → Outcome) (draw : Nat → MaterializeDraw)
    (req : TraceRequest) (sink : Entity) (db : Database) : Database × Except Thrown Traced :=
  match afterEnsure env graph (draw 0) sink.id
      (readSliceAll sink.id "backward" ["operand"] req.budgetNodes req.budgetDepth) db with
  | (db₁, .error e) => (db₁, .error e)
  | (db₁, .ok traced) =>
    match sourceQuery env graph (draw 1) sink.id db₁ with
    | (db₂, .error e) => (db₂, .error e)
    | (db₂, .ok located) =>
      (db₂, .ok ⟨traced, located, traceSite req db₂.toTables sink traced located,
        if "calls" ∈ req.sections then
          (db₂.tracedCalls traced).map fun (_, r) => r.analysisRunId else []⟩)

/-- The loop over the sinks; the draws of the turn `i` are `draw i`. -/
def traceSinks (env : Environment) (graph : String → String → Outcome)
    (draw : Nat → Nat → MaterializeDraw) (req : TraceRequest) :
    Nat → List Entity → Database → Database × Except Thrown (List Traced)
  | _, [], db => (db, .ok [])
  | i, sink :: rest, db =>
    match traceSink env graph (draw i) req sink db with
    | (db₁, .error e) => (db₁, .error e)
    | (db₁, .ok traced) =>
      match traceSinks env graph draw req (i + 1) rest db₁ with
      | (db₂, .error e) => (db₂, .error e)
      | (db₂, .ok more) => (db₂, .ok (traced :: more))

/-! ## 5. The envelope -/

structure TraceResult where
  function : String
  sinkCount : Nat
  sites : List Site
  deriving DecidableEq, Repr

/-- The two entries of `diagnostics`. -/
structure TraceDiagnostics where
  sink : SinkKind
  budgetNodesPerSink : Int
  budgetDepth : Int
  detail : String
  sections : List String
  truncatedSites : Nat
  totalVisitedNodes : Nat
  deriving DecidableEq, Repr

structure TraceEnvelope extends Envelope TraceResult where
  diagnostics : TraceDiagnostics

/-- The evidence of a turn, in the order in which the trace collects it. -/
def Traced.evidence (x : Traced) : List String :=
  x.callRuns.filterMap id ++ x.slice.evidence ++ x.source.evidence

def directCallsCapability : CapabilityEntry := ⟨"direct_calls", "supported", some "exact"⟩

def Traced.capabilities (req : TraceRequest) (x : Traced) : List CapabilityEntry :=
  (if "calls" ∈ req.sections ∧ x.slice.callNodes ≠ [] then [directCallsCapability] else []) ++
    x.slice.capabilities ++ x.source.capabilities

/-- `<sink>_sites`. -/
def noSinks (kind : SinkKind) : Unknown :=
  { kind := some (kind.text ++ "_sites"), relation := none, status := "none"
    reason := match kind with
      | .ret => "function contains no ret instruction"
      | .store => "function contains no store instruction"
    hint := none }

/-- One reason of all truncated sites is kept; several make `per_sink_budget`. -/
def traceCut (turns : List Traced) : Option Cut :=
  let truncated := turns.filter (·.slice.truncated)
  if truncated.isEmpty then none
  else
    match (truncated.filterMap (·.slice.reason)).dedup with
    | [reason] => some (.budget reason)
    | _ => some .perSinkBudget

def totalVisited (turns : List Traced) : Nat := (turns.map (·.slice.visited)).sum

def traceEnvelope (req : TraceRequest) (inv : String) (turns : List Traced) : TraceEnvelope :=
  { command := req.sinkKind.command, investigation := inv, target := req.function.id
    result := ⟨req.function.id, turns.length, turns.map (·.site)⟩
    capabilities := firstOccurrences (turns.flatMap (·.capabilities req))
    boundaries := firstOccurrences (turns.flatMap (·.slice.boundaries))
    unknowns := (if turns.isEmpty then [noSinks req.sinkKind] else []) ++
      turns.flatMap fun x => x.slice.unknowns ++ x.source.unknowns
    evidence := firstOccurrences (req.function.artifactId :: turns.flatMap (·.evidence))
    truncated := turns.any (·.slice.truncated)
    reason := traceCut turns
    visited := totalVisited turns
    budget := req.budgetNodes
    diagnostics :=
      { sink := req.sinkKind, budgetNodesPerSink := req.budgetNodes, budgetDepth := req.budgetDepth
        detail := req.detail, sections := req.sections
        truncatedSites := (turns.filter (·.slice.truncated)).length
        totalVisitedNodes := totalVisited turns } }

/-- `Service::run_trace`. -/
def runTrace (env : Environment) (graph : String → String → Outcome)
    (draw : Nat → Nat → MaterializeDraw) (req : TraceRequest) (sinks : List Entity)
    (db : Database) : Database × Except Thrown TraceEnvelope :=
  match traceSinks env graph draw req 0 sinks db with
  | (db', .error e) => (db', .error e)
  | (db', .ok turns) =>
    (db', (investigationId db'.toTables).map fun inv => traceEnvelope req inv turns)

/-! ## 6. The commands -/

/-- What both commands check before they choose their sinks. -/
def traceRequest (t : Tables) (kind : SinkKind) (handle : String) (budgetNodes budgetDepth : Int)
    (detail : String) (includes : List String) : Except Thrown TraceRequest := do
  let function ← match t.function handle with
    | some function => .ok function
    | none => .error (.irez (notFound "function not found"))
  usage (0 ≤ budgetNodes && 0 ≤ budgetDepth) (kind.command ++ " budgets must be non-negative")
  usage (detail = "graph" || detail = "summary")
    (kind.command ++ " detail must be graph or summary")
  let sections ← resolveTraceSections detail includes
  .ok ⟨function, kind, sections, detail, budgetNodes, budgetDepth⟩

/-- The returns a selector names. -/
def selectReturns (t : Tables) (handle selector : String) : Except Thrown (List Entity) :=
  if selector = "all" then .ok (orderedByOrdinal (t.entitiesOf handle (·.opcode = some "ret")))
  else
    match (t.entity selector).filter fun e => e.functionId = some handle && e.opcode = some "ret" with
    | some selected => .ok [selected]
    | none => .error (.irez (notFound "selected return is not a ret instruction in the function"))

/-- A return with an operand that is no constant null pointer. -/
def Tables.valueReturn (t : Tables) (sink : Entity) : Bool :=
  (t.operandEntity sink.id 0).any fun e =>
    !(e.kind = "constant" && "null".toList.isSuffixOf (e.exactText.getD "").toList)

def resultChannelUnknown : Unknown :=
  { kind := some "result_channel", relation := none, status := "write_side_effects"
    reason := "every return is void or a constant null pointer; results leave this function " ++
      "through store instructions"
    hint := some "use trace-stores to trace the stored values" }

/-- `extra_unknowns`. -/
def resultChannel (t : Tables) (handle : String) (returns : List Entity) : List Unknown :=
  if !returns.any t.valueReturn && (t.entitiesOf handle (·.opcode = some "store")).length ≠ 0 then
    [resultChannelUnknown]
  else []

section Commands

variable (env : Environment) (graph : String → String → Outcome) (d : MaterializeDraw)
  (draw : Nat → Nat → MaterializeDraw)

/-- `Service::trace_return`. -/
def traceReturn (handle selector : String) (budgetNodes budgetDepth : Int) (detail : String)
    (includes : List String) (db : Database) : Database × Except Thrown TraceEnvelope :=
  match afterEnsure env graph d handle (fun t => do
      let req ← traceRequest t .ret handle budgetNodes budgetDepth detail includes
      let returns ← selectReturns t handle selector
      .ok (req, returns, resultChannel t handle returns)) db with
  | (db₁, .error e) => (db₁, .error e)
  | (db₁, .ok (req, returns, extra)) =>
    match runTrace env graph draw req returns db₁ with
    | (db₂, .error e) => (db₂, .error e)
    | (db₂, .ok out) => (db₂, .ok { out with unknowns := out.unknowns ++ extra })

/-- `Service::trace_stores`. -/
def traceStores (handle : String) (budgetNodes budgetDepth : Int) (detail : String)
    (includes : List String) (db : Database) : Database × Except Thrown TraceEnvelope :=
  match afterEnsure env graph d handle (fun t => do
      let req ← traceRequest t .store handle budgetNodes budgetDepth detail includes
      .ok (req, orderedByOrdinal (t.entitiesOf handle (·.opcode = some "store")))) db with
  | (db₁, .error e) => (db₁, .error e)
  | (db₁, .ok (req, stores)) => runTrace env graph draw req stores db₁

end Commands

/-! ## 7. All queries -/

inductive Query where
  | view (handle name : String) (kind : Option String) (budget : Int)
  | source (handle : String)
  | uses (handle : String) (budget : Int)
  | slice (handle direction : String) (relations : List String) (budgetNodes budgetDepth : Int)
  | graph (handle direction : String) (budget : Int) (format : String)
  | guards (handle : String) (budget : Int)
  | expand (handle : String)
  | context (handle : String) (budget : Int)
  | traceReturn (handle selector : String) (budgetNodes budgetDepth : Int) (detail : String)
      (includes : List String)
  | traceStores (handle : String) (budgetNodes budgetDepth : Int) (detail : String)
      (includes : List String)
  deriving DecidableEq, Repr

def Query.handle : Query → String
  | .view handle _ _ _ => handle
  | .source handle => handle
  | .uses handle _ => handle
  | .slice handle .. => handle
  | .graph handle .. => handle
  | .guards handle _ => handle
  | .expand handle => handle
  | .context handle _ => handle
  | .traceReturn handle .. => handle
  | .traceStores handle .. => handle

inductive Response where
  | shown (out : Envelope ShowResult)
  | source (out : Envelope (List SourceLine))
  | uses (out : Envelope (List UseRow))
  | slice (out : Envelope SliceResult)
  | guards (out : Envelope (List GuardRow))
  | expanded (out : Envelope Expanded)
  | context (out : Envelope Context)
  | trace (out : TraceEnvelope)

/-- `evidence_refs` of a response. -/
def Response.evidence : Response → List String
  | .shown out => out.evidence
  | .source out => out.evidence
  | .uses out => out.evidence
  | .slice out => out.evidence
  | .guards out => out.evidence
  | .expanded out => out.evidence
  | .context out => out.evidence
  | .trace out => out.evidence

/-- A call and the response it makes of its envelope. -/
def respond {α : Type} (make : α → Response) (call : Database × Except Thrown α) :
    Database × Except Thrown Response := (call.1, call.2.map make)

/-- One query; its draws are `draw 0`, and `draw (i + 1)` in the turn `i` of a trace. -/
def Query.perform (env : Environment) (graph : String → String → Outcome)
    (draw : Nat → Nat → MaterializeDraw) (q : Query) (db : Database) :
    Database × Except Thrown Response :=
  match q with
  | .view handle name kind budget =>
    respond .shown (showQuery env graph (draw 0 0) handle name kind budget db)
  | .source handle => respond .source (sourceQuery env graph (draw 0 0) handle db)
  | .uses handle budget => respond .uses (usesQuery env graph (draw 0 0) handle budget db)
  | .slice handle direction relations budgetNodes budgetDepth =>
    respond .slice
      (sliceQuery env graph (draw 0 0) handle direction relations budgetNodes budgetDepth db)
  | .graph handle direction budget format =>
    respond .slice (graphQuery env graph (draw 0 0) handle direction budget format db)
  | .guards handle budget => respond .guards (guardsQuery env graph (draw 0 0) handle budget db)
  | .expand handle => respond .expanded (Irez.expand env graph (draw 0 0) handle db)
  | .context handle budget => respond .context (contextQuery env graph (draw 0) handle budget db)
  | .traceReturn handle selector budgetNodes budgetDepth detail includes =>
    respond .trace (Irez.traceReturn env graph (draw 0 0) (fun i => draw (i + 1)) handle selector
      budgetNodes budgetDepth detail includes db)
  | .traceStores handle budgetNodes budgetDepth detail includes =>
    respond .trace (Irez.traceStores env graph (draw 0 0) (fun i => draw (i + 1)) handle budgetNodes
      budgetDepth detail includes db)

/-! ## 8. What queries write -/

section Writes

variable {env : Environment} {graph : String → String → Outcome}
  {draw : Nat → Nat → MaterializeDraw} {db db' : Database}

/-- One materialization on demand, with one of the draws. -/
def EnsureStep (env : Environment) (graph : String → String → Outcome)
    (draw : Nat → Nat → MaterializeDraw) (db db' : Database) : Prop :=
  ∃ i j handle, (ensureMaterialized env graph (draw i j) handle db).1 = db'

theorem afterEnsure_fst {α : Type} {d : MaterializeDraw} {handle : String}
    {read : Tables → Except Thrown α} :
    (afterEnsure env graph d handle read db).1 = (ensureMaterialized env graph d handle db).1 := by
  unfold afterEnsure
  split
  · rename_i h
    rw [h]
  · rename_i h
    rw [h]

/-- A query that answers has materialized, and then read. -/
theorem afterEnsure_ok {α : Type} {d : MaterializeDraw} {handle : String}
    {read : Tables → Except Thrown α} {a : α}
    (h : afterEnsure env graph d handle read db = (db', .ok a)) :
    ensureMaterialized env graph d handle db = (db', .ok ()) ∧ read db'.toTables = .ok a := by
  unfold afterEnsure at h
  split at h
  · cases h
  · rename_i db₁ hm
    obtain ⟨rfl, hr⟩ := Prod.mk.inj h
    exact ⟨hm, hr⟩

theorem afterEnsure_step {α : Type} {i j : Nat} {handle : String} {read : Tables → Except Thrown α}
    {result : Except Thrown α}
    (h : afterEnsure env graph (draw i j) handle read db = (db', result)) :
    EnsureStep env graph draw db db' := by
  have hfst : (afterEnsure env graph (draw i j) handle read db).1 =
      (ensureMaterialized env graph (draw i j) handle db).1 := afterEnsure_fst
  refine ⟨i, j, handle, ?_⟩
  rw [← hfst, h]

/-- A turn of a trace writes by materializing. -/
theorem traceSink_steps {i : Nat} {req : TraceRequest} {sink : Entity} {result : Except Thrown Traced}
    (h : traceSink env graph (draw i) req sink db = (db', result)) :
    Relation.ReflTransGen (EnsureStep env graph draw) db db' := by
  unfold traceSink at h
  split at h
  · rename_i h₁
    cases h
    exact .single (afterEnsure_step h₁)
  · rename_i db₁ traced h₁
    split at h
    · rename_i h₂
      cases h
      exact .tail (.single (afterEnsure_step h₁)) (afterEnsure_step h₂)
    · rename_i h₂
      cases h
      exact .tail (.single (afterEnsure_step h₁)) (afterEnsure_step h₂)

theorem traceSinks_steps {i : Nat} {req : TraceRequest} {sinks : List Entity}
    {result : Except Thrown (List Traced)}
    (h : traceSinks env graph draw req i sinks db = (db', result)) :
    Relation.ReflTransGen (EnsureStep env graph draw) db db' := by
  induction sinks generalizing i db result with
  | nil =>
    cases h
    exact .refl
  | cons sink rest ih =>
    unfold traceSinks at h
    split at h
    · rename_i h₁
      cases h
      exact traceSink_steps h₁
    · rename_i h₁
      split at h
      · rename_i h₂
        cases h
        exact (traceSink_steps h₁).trans (ih h₂)
      · rename_i h₂
        cases h
        exact (traceSink_steps h₁).trans (ih h₂)

theorem runTrace_steps {req : TraceRequest} {sinks : List Entity}
    {result : Except Thrown TraceEnvelope}
    (h : runTrace env graph (fun i => draw (i + 1)) req sinks db = (db', result)) :
    Relation.ReflTransGen (EnsureStep env graph draw) db db' := by
  have hmono : ∀ a b, EnsureStep env graph (fun i => draw (i + 1)) a b →
      EnsureStep env graph draw a b := fun a b ⟨i, j, handle, hab⟩ => ⟨i + 1, j, handle, hab⟩
  unfold runTrace at h
  split at h
  · rename_i h₁
    cases h
    exact Relation.ReflTransGen.mono hmono _ _ (traceSinks_steps h₁)
  · rename_i h₁
    cases h
    exact Relation.ReflTransGen.mono hmono _ _ (traceSinks_steps h₁)

theorem respond_ok {α : Type} {make : α → Response} {call : Database × Except Thrown α}
    {out : Response} (h : respond make call = (db', .ok out)) :
    ∃ a, call = (db', .ok a) ∧ out = make a := by
  obtain ⟨db₁, e | a⟩ := call
  · cases h
  · cases h
    exact ⟨a, rfl, rfl⟩

/-- **A query that answers has first materialized for its handle**, and all it does to the
    database after that are materializations on demand. -/
theorem Query.perform_ok {q : Query} (hq : ∀ handle, q ≠ .expand handle) {out : Response}
    (h : q.perform env graph draw db = (db', .ok out)) :
    ∃ db₁, ensureMaterialized env graph (draw 0 0) q.handle db = (db₁, .ok ()) ∧
      Relation.ReflTransGen (EnsureStep env graph draw) db₁ db' := by
  have hplain : ∀ {α : Type} {make : α → Response} {handle : String}
      {read : Tables → Except Thrown α},
      respond make (afterEnsure env graph (draw 0 0) handle read db) = (db', .ok out) →
      ∃ db₁, ensureMaterialized env graph (draw 0 0) handle db = (db₁, .ok ()) ∧
        Relation.ReflTransGen (EnsureStep env graph draw) db₁ db' := by
    intro α make handle read hr
    obtain ⟨a, ha, _⟩ := respond_ok hr
    exact ⟨db', (afterEnsure_ok ha).1, .refl⟩
  cases q with
  | expand handle => exact absurd rfl (hq handle)
  | context handle budget =>
    obtain ⟨a, ha, _⟩ := respond_ok h
    unfold contextQuery at ha
    split at ha
    · cases ha
    · rename_i db₁ shown h₁
      split at ha
      · cases ha
      · rename_i db₂ src h₂
        split at ha
        · cases ha
        · rename_i db₃ valueGraph h₃
          cases ha
          exact ⟨db₁, (afterEnsure_ok h₁).1,
            .tail (.single (afterEnsure_step h₂)) (afterEnsure_step h₃)⟩
  | traceReturn handle selector budgetNodes budgetDepth detail includes =>
    obtain ⟨a, ha, _⟩ := respond_ok h
    unfold Irez.traceReturn at ha
    split at ha
    · cases ha
    · rename_i db₁ req returns extra h₁
      split at ha
      · cases ha
      · rename_i h₂
        cases ha
        exact ⟨db₁, (afterEnsure_ok h₁).1, runTrace_steps h₂⟩
  | traceStores handle budgetNodes budgetDepth detail includes =>
    obtain ⟨a, ha, _⟩ := respond_ok h
    unfold Irez.traceStores at ha
    split at ha
    · cases ha
    · rename_i db₁ req stores h₁
      exact ⟨db₁, (afterEnsure_ok h₁).1, runTrace_steps ha⟩
  | _ => exact hplain h

end Writes

end Irez
