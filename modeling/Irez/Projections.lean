/-
  File:      Irez/Projections.lean
  Subject:   The sections of a trace (service.cpp 1677-1692, 1803-1809, 1892-2066).

  `detail` and `include` choose what a trace shows of its sites, and nothing else. Every
  projection is read off one answer, the one with every section.

  * `Site.project` -- a site with some of its sections;
  * `Query.perform_project` -- a trace is the projection of the whole trace, failures included;
  * `Site.Extends`, `TraceEnvelope.SameFacts` -- what two projections have in common;
  * `projection_additive` -- for all details and lists, and when a list is refused.
-/
import Irez.Aggregates

open Irez.Basis

namespace Irez

/-! ## 1. Projections -/

/-- What is kept of a section. -/
def shownIn {α : Type} (sections : List String) (name : String) (a : Option α) : Option α :=
  if name ∈ sections then a else none

def SiteGraph.project (sections : List String) (g : SiteGraph) : SiteGraph :=
  { g with nodes := shownIn sections "nodes" g.nodes
           relations := shownIn sections "relations" g.relations }

/-- **A site with some of its sections.** -/
def Site.project (sections : List String) (site : Site) : Site :=
  { site with
    chain := shownIn sections "chain" site.chain
    valueGraph := if "nodes" ∈ sections ∨ "relations" ∈ sections then
      site.valueGraph.map (·.project sections) else none
    flags := shownIn sections "flags" site.flags
    source := shownIn sections "source" site.source
    boundaries := shownIn sections "boundaries" site.boundaries
    directCalls := shownIn sections "calls" site.directCalls
    callBoundaries := shownIn sections "calls" site.callBoundaries }

/-- A turn, for fewer sections. -/
def Traced.project (sections : List String) (x : Traced) : Traced :=
  { x with site := x.site.project sections
           callRuns := if "calls" ∈ sections then x.callRuns else [] }

/-- The envelope of a trace, for another `detail` and fewer sections. -/
def TraceEnvelope.project (detail : String) (sections : List String) (out : TraceEnvelope) :
    TraceEnvelope :=
  { out with
    result := { out.result with sites := out.result.sites.map (·.project sections) }
    diagnostics := { out.diagnostics with detail := detail, sections := sections } }

/-- The request for every section. -/
def TraceRequest.whole (req : TraceRequest) : TraceRequest :=
  { req with detail := "graph", sections := knownSections }

section Runs

variable {env : Environment} {graph : String → String → Outcome}
  {draw : Nat → Nat → MaterializeDraw} {req : TraceRequest} {db db' : Database}

theorem TraceRequest.whole_want {α : Type} {name : String} (hn : name ∈ knownSections) (a : α) :
    req.whole.want name a = some a :=
  if_pos hn

/-- **A site is a projection of the whole site.** -/
theorem traceSite_project (t : Tables) (sink : Entity) (traced : SliceResponse)
    (located : Envelope (List SourceLine)) :
    traceSite req t sink traced located =
      (traceSite req.whole t sink traced located).project req.sections := by
  have hgraph : "nodes" ∈ req.whole.sections ∨ "relations" ∈ req.whole.sections :=
    .inl (by decide : "nodes" ∈ knownSections)
  have hwant : ∀ {α : Type} (name : String), name ∈ knownSections → ∀ a : α,
      req.whole.want name a = some a := fun _ hn a => TraceRequest.whole_want hn a
  unfold traceSite Site.project SiteGraph.project
  simp only [hwant "chain" (by decide), hwant "nodes" (by decide), hwant "relations" (by decide),
    hwant "flags" (by decide), hwant "source" (by decide), hwant "boundaries" (by decide),
    hwant "calls" (by decide), if_pos hgraph, Option.map_some]
  rfl

theorem traceSink_project {draw : Nat → MaterializeDraw} {sink : Entity} :
    traceSink env graph draw req sink db =
      ((traceSink env graph draw req.whole sink db).1,
        (traceSink env graph draw req.whole sink db).2.map (·.project req.sections)) := by
  unfold traceSink
  have hbudgets : req.whole.budgetNodes = req.budgetNodes ∧
      req.whole.budgetDepth = req.budgetDepth := ⟨rfl, rfl⟩
  rw [hbudgets.1, hbudgets.2]
  split
  · rfl
  · rename_i db₁ traced _
    dsimp only
    split
    · rfl
    · rename_i db₂ located _
      dsimp only
      unfold Except.map Traced.project
      rw [traceSite_project]
      rfl

theorem traceSinks_project {i : Nat} {sinks : List Entity} :
    traceSinks env graph draw req i sinks db =
      ((traceSinks env graph draw req.whole i sinks db).1,
        (traceSinks env graph draw req.whole i sinks db).2.map
          (·.map (·.project req.sections))) := by
  induction sinks generalizing i db with
  | nil => rfl
  | cons sink rest ih =>
    unfold traceSinks
    rw [traceSink_project]
    generalize traceSink env graph (draw i) req.whole sink db = turn
    obtain ⟨db₁, e | traced⟩ := turn
    · rfl
    · dsimp only [Except.map]
      rw [ih]
      generalize traceSinks env graph draw req.whole (i + 1) rest db₁ = more
      obtain ⟨db₂, e | more⟩ := more
      · rfl
      · rfl

/-- The envelope is read off the turns, and of the sections only the calls matter to it. -/
theorem traceEnvelope_project (hcalls : "calls" ∈ req.sections) (inv : String)
    (turns : List Traced) :
    traceEnvelope req inv (turns.map (·.project req.sections)) =
      (traceEnvelope req.whole inv turns).project req.detail req.sections := by
  have hwhole : "calls" ∈ req.whole.sections := (by decide : "calls" ∈ knownSections)
  have hslices : ∀ {α : Type} (f : Traced → α), (∀ x, f (x.project req.sections) = f x) →
      (turns.map (·.project req.sections)).map f = turns.map f := by
    intro α f hf
    rw [List.map_map]
    exact List.map_congr_left fun x _ => hf x
  have hflat : ∀ {α : Type} (f g : Traced → List α), (∀ x, f (x.project req.sections) = g x) →
      (turns.map (·.project req.sections)).flatMap f = turns.flatMap g := by
    intro α f g hf
    rw [List.flatMap_map]
    exact congrArg List.flatten (List.map_congr_left fun x _ => hf x)
  have hcapabilities : (turns.map (·.project req.sections)).flatMap (·.capabilities req) =
      turns.flatMap (·.capabilities req.whole) := by
    refine hflat _ _ fun x => ?_
    unfold Traced.capabilities Traced.project
    simp only [hcalls, hwhole]
  have hevidence : (turns.map (·.project req.sections)).flatMap (·.evidence) =
      turns.flatMap (·.evidence) := by
    refine hflat _ _ fun x => ?_
    unfold Traced.evidence Traced.project
    simp only [hcalls, if_true]
  have hcut : traceCut (turns.map (·.project req.sections)) = traceCut turns := by
    unfold traceCut
    dsimp only
    rw [List.filter_map, List.isEmpty_map, List.filterMap_map]
    rfl
  have hcount : ((turns.map (·.project req.sections)).filter (·.slice.truncated)).length =
      (turns.filter (·.slice.truncated)).length := by
    rw [List.filter_map, List.length_map]
    rfl
  have htotal : totalVisited (turns.map (·.project req.sections)) = totalVisited turns :=
    congrArg List.sum (hslices (·.slice.visited) fun _ => rfl)
  have hany : (turns.map (·.project req.sections)).any (·.slice.truncated) =
      turns.any (·.slice.truncated) := List.any_map
  unfold traceEnvelope TraceEnvelope.project
  rw [hcapabilities, hevidence, hcut, hcount, htotal, hany, List.length_map, List.isEmpty_map,
    hflat (·.slice.boundaries) (·.slice.boundaries) fun _ => rfl,
    hflat (fun x => x.slice.unknowns ++ x.source.unknowns)
      (fun x => x.slice.unknowns ++ x.source.unknowns) fun _ => rfl]
  congr 2
  rw [List.map_map, List.map_map]
  rfl

theorem runTrace_project (hcalls : "calls" ∈ req.sections) {sinks : List Entity} :
    runTrace env graph draw req sinks db =
      ((runTrace env graph draw req.whole sinks db).1,
        (runTrace env graph draw req.whole sinks db).2.map (·.project req.detail req.sections)) := by
  unfold runTrace
  rw [traceSinks_project]
  generalize traceSinks env graph draw req.whole 0 sinks db = call
  obtain ⟨db₁, e | turns⟩ := call
  · rfl
  · dsimp only [Except.map]
    cases investigationId db₁.toTables with
    | error e => rfl
    | ok inv =>
      dsimp only
      rw [traceEnvelope_project hcalls]

end Runs

/-! ## 2. The commands -/

/-- A trace with another `detail` and `include`. -/
def Query.projected (q : Query) (detail : String) (includes : List String) : Query :=
  match q with
  | .traceReturn handle selector budgetNodes budgetDepth _ _ =>
    .traceReturn handle selector budgetNodes budgetDepth detail includes
  | .traceStores handle budgetNodes budgetDepth _ _ =>
    .traceStores handle budgetNodes budgetDepth detail includes
  | q => q

/-- The values of `detail`. -/
def details : List String := ["graph", "summary"]

/-- The sections that a `detail` and a list ask for. -/
def sectionsOf (detail : String) (includes : List String) : List String :=
  sortedUnique (detailSections detail ++ includes)

section Commands

variable {env : Environment} {graph : String → String → Outcome}
  {draw : Nat → Nat → MaterializeDraw} {db : Database}

theorem resolveTraceSections_known {detail : String} {includes : List String}
    (h : ∀ name ∈ includes, name ∈ knownSections) :
    resolveTraceSections detail includes = .ok (sectionsOf detail includes) := by
  have hnone : includes.find? (· ∉ knownSections) = none :=
    List.find?_eq_none.mpr fun name hname => by simpa using h name hname
  unfold resolveTraceSections
  rw [hnone]
  rfl

/-- Requests that differ in their sections are checked alike. -/
theorem traceRequest_project {t : Tables} {kind : SinkKind} {handle : String}
    {budgetNodes budgetDepth : Int} {detail : String} {includes : List String}
    (hd : detail ∈ details) (hi : ∀ name ∈ includes, name ∈ knownSections) :
    traceRequest t kind handle budgetNodes budgetDepth detail includes =
      (traceRequest t kind handle budgetNodes budgetDepth "graph" []).map fun req =>
        { req with detail := detail, sections := sectionsOf detail includes } := by
  unfold traceRequest
  rw [resolveTraceSections_known hi, resolveTraceSections_known fun _ hn => absurd hn List.not_mem_nil]
  have hdetail : (decide (detail = "graph") || decide (detail = "summary")) = true := by
    rcases List.mem_cons.mp hd with rfl | hd
    · rfl
    · rw [List.mem_singleton.mp hd]
      rfl
  rw [hdetail]
  cases t.function handle with
  | none => rfl
  | some function =>
    dsimp only [bind, Except.bind]
    cases usage (0 ≤ budgetNodes && 0 ≤ budgetDepth) (kind.command ++ " budgets must be non-negative") with
    | error e => rfl
    | ok u => rfl

/-- **Every projection of a trace is read off one answer**, failures included. -/
theorem Query.perform_project (env : Environment) (graph : String → String → Outcome)
    (draw : Nat → Nat → MaterializeDraw) (db : Database) (q : Query) (hq : q.trace.isSome) :
    ∃ answer : Database × Except Thrown TraceEnvelope, ∀ detail ∈ details, ∀ includes,
      (∀ name ∈ includes, name ∈ knownSections) →
        (q.projected detail includes).perform env graph draw db =
          (answer.1, (answer.2.map (·.project detail (sectionsOf detail includes))).map .trace) := by
  have hcalls : ∀ detail includes, "calls" ∈ sectionsOf detail includes := fun detail includes =>
    mem_sections _ (by decide)
  cases q with
  | traceReturn handle selector budgetNodes budgetDepth _ _ =>
    cases hens : ensureMaterialized env graph (draw 0 0) handle db with
    | mk db₁ result =>
    cases result with
    | error e =>
      refine ⟨(db₁, .error e), fun detail _ includes _ => ?_⟩
      simp only [Query.projected, Query.perform, respond, Irez.traceReturn,
        afterEnsure_of_error hens, Except.map]
    | ok u =>
      cases hreq : traceRequest db₁.toTables .ret handle budgetNodes budgetDepth "graph" [] with
      | error e =>
        refine ⟨(db₁, .error e), fun detail hd includes hi => ?_⟩
        simp only [Query.projected, Query.perform, respond, Irez.traceReturn,
          afterEnsure_of_ok hens, traceRequest_project hd hi, hreq, Except.map, bind, Except.bind]
      | ok req =>
        cases hsel : selectReturns db₁.toTables handle selector with
        | error e =>
          refine ⟨(db₁, .error e), fun detail hd includes hi => ?_⟩
          simp only [Query.projected, Query.perform, respond, Irez.traceReturn,
            afterEnsure_of_ok hens, traceRequest_project hd hi, hreq, hsel, Except.map, bind,
            Except.bind]
        | ok returns =>
          let run := runTrace env graph (fun i => draw (i + 1)) req.whole returns db₁
          let extra := resultChannel db₁.toTables handle returns
          refine ⟨(run.1, run.2.map fun out => { out with unknowns := out.unknowns ++ extra }),
            fun detail hd includes hi => ?_⟩
          have hrun : runTrace env graph (fun i => draw (i + 1)) { req with
              detail := detail, sections := sectionsOf detail includes } returns db₁ =
                (run.1, run.2.map (·.project detail (sectionsOf detail includes))) :=
            runTrace_project (hcalls detail includes)
          simp only [Query.projected, Query.perform, respond, Irez.traceReturn,
            afterEnsure_of_ok hens, traceRequest_project hd hi, hreq, hsel, Except.map, bind,
            Except.bind, hrun]
          obtain ⟨db₂, e | out⟩ := run
          · rfl
          · rfl
  | traceStores handle budgetNodes budgetDepth _ _ =>
    cases hens : ensureMaterialized env graph (draw 0 0) handle db with
    | mk db₁ result =>
    cases result with
    | error e =>
      refine ⟨(db₁, .error e), fun detail _ includes _ => ?_⟩
      simp only [Query.projected, Query.perform, respond, Irez.traceStores,
        afterEnsure_of_error hens, Except.map]
    | ok u =>
      cases hreq : traceRequest db₁.toTables .store handle budgetNodes budgetDepth "graph" [] with
      | error e =>
        refine ⟨(db₁, .error e), fun detail hd includes hi => ?_⟩
        simp only [Query.projected, Query.perform, respond, Irez.traceStores,
          afterEnsure_of_ok hens, traceRequest_project hd hi, hreq, Except.map, bind, Except.bind]
      | ok req =>
        let stores := orderedByOrdinal (db₁.entitiesOf handle (·.opcode = some "store"))
        refine ⟨runTrace env graph (fun i => draw (i + 1)) req.whole stores db₁,
          fun detail hd includes hi => ?_⟩
        have hrun : runTrace env graph (fun i => draw (i + 1)) { req with
            detail := detail, sections := sectionsOf detail includes } stores db₁ = _ :=
          runTrace_project (hcalls detail includes)
        simp only [Query.projected, Query.perform, respond, Irez.traceStores,
          afterEnsure_of_ok hens, traceRequest_project hd hi, hreq, Except.map, bind,
          Except.bind]
        rw [hrun]
        rfl
  | _ => cases hq

end Commands

/-! ## 3. What two projections have in common -/

/-- The correctness fields of a site. -/
structure Site.SameFacts (site site' : Site) : Prop where
  sink : site.sink = site'.sink
  operand : site.operand = site'.operand
  pointer : site.pointer = site'.pointer
  valueShape : site.valueShape = site'.valueShape
  nodeCount : site.nodeCount = site'.nodeCount
  relationCount : site.relationCount = site'.relationCount
  truncation : site.truncation = site'.truncation

/-- What is shown is shown with the same value. -/
def Carries {α : Type} (a a' : Option α) : Prop := ∀ v, a = some v → a' = some v

/-- **A site has every field of another**, with its value; `value_graph` field by field. -/
structure Site.Extends (site site' : Site) : Prop extends Site.SameFacts site site' where
  chain : Carries site.chain site'.chain
  valueGraph : ∀ g, site.valueGraph = some g → ∃ g', site'.valueGraph = some g' ∧
    g'.direction = g.direction ∧ g'.budgetDepth = g.budgetDepth ∧ Carries g.nodes g'.nodes ∧
    Carries g.relations g'.relations
  flags : Carries site.flags site'.flags
  source : Carries site.source site'.source
  boundaries : Carries site.boundaries site'.boundaries
  directCalls : Carries site.directCalls site'.directCalls
  callBoundaries : Carries site.callBoundaries site'.callBoundaries

/-- **A site shows exactly some sections.** -/
structure Site.Shows (sections : List String) (site : Site) : Prop where
  chain : site.chain.isSome ↔ "chain" ∈ sections
  valueGraph : site.valueGraph.isSome ↔ "nodes" ∈ sections ∨ "relations" ∈ sections
  nodes : ∀ g, site.valueGraph = some g → (g.nodes.isSome ↔ "nodes" ∈ sections)
  relations : ∀ g, site.valueGraph = some g → (g.relations.isSome ↔ "relations" ∈ sections)
  flags : site.flags.isSome ↔ "flags" ∈ sections
  source : site.source.isSome ↔ "source" ∈ sections
  boundaries : site.boundaries.isSome ↔ "boundaries" ∈ sections
  directCalls : site.directCalls.isSome ↔ "calls" ∈ sections
  callBoundaries : site.callBoundaries.isSome ↔ "calls" ∈ sections

/-- The correctness fields of an envelope, and of its sites. -/
structure TraceEnvelope.SameFacts (out out' : TraceEnvelope) : Prop where
  command : out.command = out'.command
  investigation : out.investigation = out'.investigation
  target : out.target = out'.target
  function : out.result.function = out'.result.function
  sinkCount : out.result.sinkCount = out'.result.sinkCount
  sites : List.Forall₂ Site.SameFacts out.result.sites out'.result.sites
  capabilities : out.capabilities = out'.capabilities
  boundaries : out.boundaries = out'.boundaries
  unknowns : out.unknowns = out'.unknowns
  evidence : out.evidence = out'.evidence
  truncated : out.truncated = out'.truncated
  reason : out.reason = out'.reason
  visited : out.visited = out'.visited
  budget : out.budget = out'.budget
  truncatedSites : out.diagnostics.truncatedSites = out'.diagnostics.truncatedSites
  totalVisitedNodes : out.diagnostics.totalVisitedNodes = out'.diagnostics.totalVisitedNodes

section Common

variable {sections sections' : List String}

theorem Site.project_sameFacts (site : Site) :
    (site.project sections).SameFacts (site.project sections') :=
  ⟨rfl, rfl, rfl, rfl, rfl, rfl, rfl⟩

theorem carries_shownIn {α : Type} (h : ∀ name ∈ sections, name ∈ sections') (name : String)
    (a : Option α) : Carries (shownIn sections name a) (shownIn sections' name a) := by
  intro v hv
  unfold shownIn at hv ⊢
  split at hv
  · rename_i hn
    rw [if_pos (h name hn), hv]
  · cases hv

/-- **More sections extend a site.** -/
theorem Site.project_extends (h : ∀ name ∈ sections, name ∈ sections') (site : Site) :
    (site.project sections).Extends (site.project sections') where
  toSameFacts := site.project_sameFacts
  chain := carries_shownIn h _ _
  valueGraph := by
    intro g hg
    simp only [Site.project] at hg ⊢
    split at hg
    · rename_i hn
      obtain ⟨g₀, hg₀, rfl⟩ := Option.map_eq_some_iff.mp hg
      rw [if_pos (hn.imp (h _) (h _)), hg₀]
      exact ⟨_, rfl, rfl, rfl, carries_shownIn h _ _, carries_shownIn h _ _⟩
    · cases hg
  flags := carries_shownIn h _ _
  source := carries_shownIn h _ _
  boundaries := carries_shownIn h _ _
  directCalls := carries_shownIn h _ _
  callBoundaries := carries_shownIn h _ _

theorem TraceEnvelope.project_sameFacts (out : TraceEnvelope) {detail detail' : String} :
    (out.project detail sections).SameFacts (out.project detail' sections') where
  command := rfl
  investigation := rfl
  target := rfl
  function := rfl
  sinkCount := rfl
  sites := List.forall₂_map_left_iff.mpr (List.forall₂_map_right_iff.mpr
    (List.forall₂_same.mpr fun site _ => site.project_sameFacts))
  capabilities := rfl
  boundaries := rfl
  unknowns := rfl
  evidence := rfl
  truncated := rfl
  reason := rfl
  visited := rfl
  budget := rfl
  truncatedSites := rfl
  totalVisitedNodes := rfl

theorem TraceRequest.isSome_want {α : Type} (req : TraceRequest) (name : String) (a : α) :
    (req.want name a).isSome ↔ name ∈ req.sections := by
  unfold TraceRequest.want
  split
  · rename_i h
    exact iff_of_true rfl h
  · rename_i h
    exact iff_of_false (by simp) h

/-- A site shows the sections of its request. -/
theorem traceSite_shows (req : TraceRequest) (t : Tables) (sink : Entity) (traced : SliceResponse)
    (located : Envelope (List SourceLine)) :
    (traceSite req t sink traced located).Shows req.sections where
  chain := req.isSome_want _ _
  valueGraph := by
    show (if _ then _ else _ : Option SiteGraph).isSome = true ↔ _
    split
    · rename_i h
      exact iff_of_true rfl h
    · rename_i h
      exact iff_of_false (by simp) h
  nodes := by
    intro g hg
    simp only [traceSite] at hg
    split at hg
    · cases hg
      exact req.isSome_want _ _
    · cases hg
  relations := by
    intro g hg
    simp only [traceSite] at hg
    split at hg
    · cases hg
      exact req.isSome_want _ _
    · cases hg
  flags := req.isSome_want _ _
  source := req.isSome_want _ _
  boundaries := req.isSome_want _ _
  directCalls := req.isSome_want _ _
  callBoundaries := req.isSome_want _ _

end Common

/-! ## 4. All projections -/

section Projections

variable {env : Environment} {graph : String → String → Outcome}
  {draw : Nat → Nat → MaterializeDraw} {db : Database}

/-- The sites of a trace show the sections that it reports. -/
theorem Query.trace_shows {q : Query} {db' : Database} {out : TraceEnvelope}
    (h : q.perform env graph draw db = (db', .ok (.trace out))) :
    ∀ site ∈ out.result.sites, site.Shows out.diagnostics.sections := by
  obtain ⟨req, inv, extra, _, hread, _, rfl⟩ := Query.turns_read h
  intro site hsite
  obtain ⟨x, hx, rfl⟩ := List.mem_map.mp hsite
  obtain ⟨turn, hturn, rfl⟩ := List.mem_map.mp hx
  rw [(hread turn hturn).site]
  exact traceSite_shows req _ _ _ _

theorem usage_error {test : Bool} {message : String} {e : Thrown}
    (h : usage test message = .error e) : ∃ e', e = .irez e' ∧ e'.exitCode = 2 := by
  unfold usage at h
  split at h
  · cases h
  · cases h
    exact ⟨_, rfl, rfl⟩

/-- A list with an unknown section is refused; the checks before it refuse likewise. -/
theorem traceRequest_unknown {t : Tables} {kind : SinkKind} {handle : String}
    {budgetNodes budgetDepth : Int} {detail : String} {includes : List String} {function : Entity}
    (hf : t.function handle = some function) {name : String} (hn : name ∈ includes)
    (hu : name ∉ knownSections) :
    ∃ e, traceRequest t kind handle budgetNodes budgetDepth detail includes = .error (.irez e) ∧
      e.exitCode = 2 := by
  have hsome : ∃ bad, includes.find? (· ∉ knownSections) = some bad := by
    rw [← Option.isSome_iff_exists, List.find?_isSome]
    exact ⟨name, hn, decide_eq_true hu⟩
  obtain ⟨bad, hbad⟩ := hsome
  unfold traceRequest resolveTraceSections
  rw [hf, hbad]
  dsimp only [bind, Except.bind]
  cases h₁ : usage (0 ≤ budgetNodes && 0 ≤ budgetDepth)
      (kind.command ++ " budgets must be non-negative") with
  | error e =>
    obtain ⟨e', rfl, he⟩ := usage_error h₁
    exact ⟨e', rfl, he⟩
  | ok u =>
    cases h₂ : usage (detail = "graph" || detail = "summary")
        (kind.command ++ " detail must be graph or summary") with
    | error e =>
      obtain ⟨e', rfl, he⟩ := usage_error h₂
      exact ⟨e', rfl, he⟩
    | ok u => exact ⟨_, rfl, rfl⟩

/-- **A list with an unknown section is refused with exit 2**, once the function is there to be
    traced. -/
theorem Query.projected_unknown {q : Query} (hq : q.trace.isSome) {detail : String}
    {includes : List String} {name : String} (hn : name ∈ includes) (hu : name ∉ knownSections)
    {db₁ : Database} {function : Entity}
    (hens : ensureMaterialized env graph (draw 0 0) q.handle db = (db₁, .ok ()))
    (hf : db₁.function q.handle = some function) :
    ∃ e, (q.projected detail includes).perform env graph draw db = (db₁, .error (.irez e)) ∧
      e.exitCode = 2 := by
  cases q with
  | traceReturn handle selector budgetNodes budgetDepth _ _ =>
    simp only [Query.handle] at hens hf
    obtain ⟨e, he, hcode⟩ : ∃ e, traceRequest db₁.toTables .ret handle budgetNodes budgetDepth
        detail includes = .error (.irez e) ∧ e.exitCode = 2 := traceRequest_unknown hf hn hu
    refine ⟨e, ?_, hcode⟩
    simp only [Query.projected, Query.perform, respond, Irez.traceReturn, afterEnsure_of_ok hens,
      he, bind, Except.bind, Except.map]
  | traceStores handle budgetNodes budgetDepth _ _ =>
    simp only [Query.handle] at hens hf
    obtain ⟨e, he, hcode⟩ : ∃ e, traceRequest db₁.toTables .store handle budgetNodes budgetDepth
        detail includes = .error (.irez e) ∧ e.exitCode = 2 := traceRequest_unknown hf hn hu
    refine ⟨e, ?_, hcode⟩
    simp only [Query.projected, Query.perform, respond, Irez.traceStores, afterEnsure_of_ok hens,
      he, bind, Except.bind, Except.map]
  | _ => cases hq

/-- A trace that is refused for a section never answers. -/
theorem Query.projected_unknown_fails {q : Query} (hq : q.trace.isSome) {detail : String}
    {includes : List String} {name : String} (hn : name ∈ includes) (hu : name ∉ knownSections) :
    ∃ e, ((q.projected detail includes).perform env graph draw db).2 = .error e := by
  generalize hcall : (q.projected detail includes).perform env graph draw db = call
  obtain ⟨db', e | response⟩ := call
  · exact ⟨e, rfl⟩
  · exfalso
    have hrefused : ∀ {db₁ function}, ensureMaterialized env graph (draw 0 0) q.handle db =
        (db₁, .ok ()) → db₁.function q.handle = some function → False := by
      intro db₁ function hens hf
      obtain ⟨e, he, _⟩ : ∃ e, (q.projected detail includes).perform env graph draw db =
          (db₁, .error (.irez e)) ∧ e.exitCode = 2 := Query.projected_unknown hq hn hu hens hf
      rw [hcall] at he
      cases he
    cases q with
    | traceReturn handle selector budgetNodes budgetDepth _ _ =>
      obtain ⟨out, _, rfl⟩ := respond_ok hcall
      obtain ⟨db₁, req, _, ht⟩ := Query.perform_trace hcall
      exact hrefused ht.ensured ht.function
    | traceStores handle budgetNodes budgetDepth _ _ =>
      obtain ⟨out, _, rfl⟩ := respond_ok hcall
      obtain ⟨db₁, req, _, ht⟩ := Query.perform_trace hcall
      exact hrefused ht.ensured ht.function
    | _ => cases hq

/-- What every two projections of one trace agree on. -/
theorem Query.projected_sameFacts {q : Query} (hq : q.trace.isSome) {d d' : String}
    (hd : d ∈ details) (hd' : d' ∈ details) {L L' : List String}
    (hL : ∀ name ∈ L, name ∈ knownSections) (hL' : ∀ name ∈ L', name ∈ knownSections)
    {out : TraceEnvelope} {db' : Database}
    (h : (q.projected d L).perform env graph draw db = (db', .ok (.trace out))) :
    ∃ out', (q.projected d' L').perform env graph draw db = (db', .ok (.trace out')) ∧
      out.SameFacts out' ∧ (∀ site ∈ out.result.sites, site.Shows (sectionsOf d L)) ∧
      ((∀ name ∈ sectionsOf d L, name ∈ sectionsOf d' L') →
        List.Forall₂ Site.Extends out.result.sites out'.result.sites) := by
  obtain ⟨⟨db₂, answer⟩, hanswer⟩ := Query.perform_project env graph draw db q hq
  have hshows := Query.trace_shows h
  rw [hanswer d hd L hL] at h
  rw [hanswer d' hd' L' hL']
  cases answer with
  | error e => cases h
  | ok whole =>
    cases h
    refine ⟨_, rfl, whole.project_sameFacts, hshows, fun hsub => ?_⟩
    exact List.forall₂_map_left_iff.mpr (List.forall₂_map_right_iff.mpr
      (List.forall₂_same.mpr fun site _ => site.project_extends hsub))

end Projections

/-- **A projection adds fields and touches no correctness field.** All details and lists of
    known sections fail alike and answer alike, in the same state; a longer list keeps every
    field of every site, and a site shows the sections asked for and no others. A list with an
    unknown section never answers, and it is refused with exit 2 for every detail, once the
    function has been materialized. -/
theorem projection_additive (env : Environment) (graph : String → String → Outcome)
    (draw : Nat → Nat → MaterializeDraw) (db : Database) (q : Query) (hq : q.trace.isSome) :
    (∀ d ∈ details, ∀ d' ∈ details, ∀ L L', (∀ name ∈ L, name ∈ knownSections) →
      (∀ name ∈ L', name ∈ knownSections) →
      (∀ db' e, (q.projected d L).perform env graph draw db = (db', .error e) →
        (q.projected d' L').perform env graph draw db = (db', .error e)) ∧
      ∀ db' out, (q.projected d L).perform env graph draw db = (db', .ok (.trace out)) →
        ∃ out', (q.projected d' L').perform env graph draw db = (db', .ok (.trace out')) ∧
          out.SameFacts out' ∧ (∀ site ∈ out.result.sites, site.Shows (detailSections d ++ L)) ∧
          (d = d' → L ⊆ L' → List.Forall₂ Site.Extends out.result.sites out'.result.sites)) ∧
    ∀ d L, (∃ name ∈ L, name ∉ knownSections) →
      (∃ e, ((q.projected d L).perform env graph draw db).2 = .error e) ∧
      ∀ db₁ function, ensureMaterialized env graph (draw 0 0) q.handle db = (db₁, .ok ()) →
        db₁.function q.handle = some function →
          ∃ e, (q.projected d L).perform env graph draw db = (db₁, .error (.irez e)) ∧
            e.exitCode = 2 := by
  refine ⟨fun d hd d' hd' L L' hL hL' => ⟨?_, ?_⟩, ?_⟩
  · intro db' e h
    obtain ⟨⟨db₂, answer⟩, hanswer⟩ := Query.perform_project env graph draw db q hq
    rw [hanswer d hd L hL] at h
    rw [hanswer d' hd' L' hL']
    cases answer with
    | error e => exact h
    | ok whole => cases h
  · intro db' out h
    obtain ⟨out', h', hsame, hshows, hext⟩ := Query.projected_sameFacts hq hd hd' hL hL' h
    refine ⟨out', h', hsame, fun site hsite => ?_, ?_⟩
    · obtain ⟨c, v, n, r, f, s, b, dc, cb⟩ := hshows site hsite
      unfold sectionsOf at c v n r f s b dc cb
      simp only [mem_sortedUnique] at c v n r f s b dc cb
      exact ⟨c, v, n, r, f, s, b, dc, cb⟩
    · rintro rfl hsub
      refine hext fun name hname => ?_
      unfold sectionsOf at hname ⊢
      rw [mem_sortedUnique, List.mem_append] at hname ⊢
      exact hname.imp id fun hn => hsub hn
  · rintro d L ⟨name, hn, hu⟩
    exact ⟨Query.projected_unknown_fails hq hn hu,
      fun db₁ function hens hf => Query.projected_unknown hq hn hu hens hf⟩

open Uncollected in
/-- The sections of the traced return, and those of its summary with flags. -/
theorem projection_additive_flags : ∃ db' out out',
    ((query 2).projected "summary" []).perform Sample.environment
      (singleAdapter module).functionGraph draw (singleCatalogued module) =
        (db', .ok (.trace out)) ∧
    ((query 2).projected "summary" ["flags"]).perform Sample.environment
      (singleAdapter module).functionGraph draw (singleCatalogued module) =
        (db', .ok (.trace out')) ∧
    List.Forall₂ Site.Extends out.result.sites out'.result.sites := by
  have hok : (call 2).2.toBool = true := by decide +kernel
  generalize h : call 2 = answer at hok
  obtain ⟨db', e | response⟩ := answer
  · cases hok
  · obtain ⟨out, _, rfl⟩ := respond_ok h
    obtain ⟨out', h', _, _, hext⟩ := ((projection_additive Sample.environment
      (singleAdapter module).functionGraph draw (singleCatalogued module) (query 2) rfl).1
        "summary" (by decide) "summary" (by decide) [] ["flags"] (by decide) (by decide)).2 db' out h
    exact ⟨db', out, out', h, h', hext rfl (by decide)⟩

namespace Uncollected

/-- The adapter on a stored file that is gone. -/
def missing (_ _ : String) : Outcome := .ok [.error "error: no such file or directory"]

/-- `trace-return f0 --include bogus`. -/
def bogus : Query := .traceReturn Collision.f0 "all" 1 12 "summary" ["bogus"]

/-- The exit code of an answer. -/
def exitCode : Except Thrown Response → Option Int
  | .error (.irez e) => some e.exitCode
  | _ => none

end Uncollected

open Uncollected in
/-- **The function is materialized before its arguments are checked**: where its file is gone, an
    unknown section is refused with the exit code of the adapter. -/
theorem unknown_section_unmaterialized :
    History (Contents.single module) (singleCatalogued module) ∧ "bogus" ∉ knownSections ∧
      exitCode (bogus.perform Sample.environment missing draw (singleCatalogued module)).2 =
        some 4 :=
  ⟨singleCatalogued_history module, by decide, by decide +kernel⟩

end Irez
