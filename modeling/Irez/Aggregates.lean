/-
  File:      Irez/Aggregates.lean
  Subject:   A composed trace against its slices, one for each sink (service.cpp 1795-2133).

  The loop over the sinks keeps a dozen accumulators. In the model the turns are a list, and
  each field of the envelope is a sum over that list.

  * `Site.Repeats` -- a site says what a slice of its own says;
  * `traceTurns_slice` -- each turn is such a slice, in the state in which it runs;
  * `Aggregates` -- the envelope, field by field, from the sites;
  * `Query.trace_fails` -- a trace that fails did not materialize, or refused its arguments;
  * `trace_is_aggregate` -- every trace that answers is the aggregate of its slices.
-/
import Irez.Evidence

open Irez.Basis

namespace Irez

/-! ## 1. Sites and slices -/

/-- **A site says what the answer of a slice says.** -/
structure Site.Repeats (site : Site) (out : Envelope SliceResult) : Prop where
  truncated : site.truncation.truncated = out.truncated
  reason : site.truncation.reason.map Cut.budget = out.reason
  visited : (site.truncation.visitedNodes : Int) = out.visited
  boundaries : site.boundaries = some out.boundaries
  lengths : ∃ nodes relations direction depth,
    out.result = .graph nodes relations direction depth ∧
      site.nodeCount = nodes.length ∧ site.relationCount = relations.length

section Slices

variable {env : Environment} {graph : String → String → Outcome} {db db' : Database}
  {req : TraceRequest}

theorem Turn.Read.repeats {turn : Turn} (h : turn.Read req) (hb : "boundaries" ∈ req.sections) :
    turn.traced.site.Repeats turn.traced.slice.envelope := by
  rw [h.site]
  exact ⟨rfl, rfl, rfl, if_pos hb, _, _, _, _, rfl, rfl, rfl⟩

/-- **Each turn makes the slice of its sink**, in a state reached by materializing. -/
theorem traceTurns_slice {draw : Nat → Nat → MaterializeDraw} {i : Nat} {sinks : List Entity} :
    ∀ turn ∈ traceTurns env graph draw req i sinks db,
      ∃ db₁ db₂ d, Relation.ReflTransGen (EnsureStep env graph draw) db db₁ ∧
        sliceQuery env graph d turn.sink.id "backward" ["operand"] req.budgetNodes req.budgetDepth
          db₁ = (db₂, .ok turn.traced.slice.envelope) := by
  induction sinks generalizing i db with
  | nil => exact fun turn h => absurd h List.not_mem_nil
  | cons sink rest ih =>
    intro turn h
    unfold traceTurns at h
    split at h
    · exact absurd h List.not_mem_nil
    · rename_i db₁ traced hsink
      rcases List.mem_cons.mp h with rfl | h
      · unfold traceSink at hsink
        split at hsink
        · cases hsink
        · rename_i db₂ out h₁
          obtain ⟨hens, hread⟩ := afterEnsure_ok h₁
          have hslice : sliceQuery env graph (draw i 0) sink.id "backward" ["operand"]
              req.budgetNodes req.budgetDepth db = (db₂, .ok out.envelope) := by
            unfold sliceQuery afterEnsure readSliceEnvelope
            rw [hens]
            dsimp only
            rw [hread]
            rfl
          split at hsink
          · cases hsink
          · cases hsink
            exact ⟨db, db₂, _, .refl, hslice⟩
      · obtain ⟨db₂, db₃, d, hsteps, hslice⟩ := ih turn h
        exact ⟨db₂, db₃, d, (traceSink_steps hsink).trans hsteps, hslice⟩

end Slices

/-! ## 2. The envelope -/

/-- **The envelope of a trace is the aggregate of its turns.** -/
structure Aggregates (out : TraceEnvelope) (turns : List Turn) : Prop where
  sites : out.result.sites = turns.map (·.traced.site)
  count : out.result.sinkCount = turns.length
  truncated : out.truncated = true ↔
    ∃ site ∈ out.result.sites, site.truncation.truncated = true
  none : (∀ site ∈ out.result.sites, site.truncation.truncated = false) → out.reason = none
  common : ∀ site ∈ out.result.sites, site.truncation.truncated = true →
    ∃ r, site.truncation.reason = some r ∧
      ((∀ site' ∈ out.result.sites, site'.truncation.truncated = true →
        site'.truncation.reason = some r) → out.reason = some (.budget r))
  mixed : ∀ site ∈ out.result.sites, ∀ site' ∈ out.result.sites,
    site.truncation.truncated = true → site'.truncation.truncated = true →
      site.truncation.reason ≠ site'.truncation.reason → out.reason = some .perSinkBudget
  visited : out.visited = ((out.result.sites.map (·.truncation.visitedNodes)).sum : Nat)
  total : out.diagnostics.totalVisitedNodes =
    (out.result.sites.map (·.truncation.visitedNodes)).sum
  truncatedSites : out.diagnostics.truncatedSites =
    (out.result.sites.filter (·.truncation.truncated)).length
  boundaries : ∀ site ∈ out.result.sites, ∀ bs, site.boundaries = some bs →
    ∀ b ∈ bs, out.boundaries.count b = 1
  capabilities : ∀ turn ∈ turns,
    ∀ c ∈ turn.traced.slice.capabilities ++ turn.traced.source.capabilities,
      out.capabilities.count c = 1
  directCalls : ∀ turn ∈ turns, turn.traced.slice.callNodes ≠ [] →
    out.capabilities.count directCallsCapability = 1
  evidence : ∀ turn ∈ turns, ∀ r ∈ turn.traced.slice.evidence ++ turn.traced.source.evidence,
    out.evidence.count r = 1
  callRuns : ∀ turn ∈ turns, ∀ call ∈ turn.traced.slice.callNodes,
    ∀ r ∈ turn.tables.callRelations call.id, ∀ run, r.analysisRunId = some run →
      out.evidence.count run = 1

section Envelope

variable {req : TraceRequest} {turns : List Turn}

theorem count_firstOccurrences {α : Type} [DecidableEq α] {values : List α} {v : α}
    (h : v ∈ values) : (firstOccurrences values).count v = 1 :=
  List.count_eq_one_of_mem (firstOccurrences_nodup values) (mem_firstOccurrences.mpr h)

/-- A slice that is cut off has a reason. -/
theorem Turn.Read.reason {turn : Turn} (h : turn.Read req)
    (ht : turn.traced.slice.truncated = true) : ∃ r, turn.traced.slice.reason = some r := by
  obtain ⟨target, inv, s, _, _, hsound, _, hout⟩ := readSliceAll_ok h.slice
  rw [hout] at ht ⊢
  refine Option.ne_none_iff_exists'.mp fun hnone => ?_
  exact of_decide_eq_true ht (hsound.reason_none.mp hnone)

/-- The reasons of the slices that are cut off. -/
theorem traceCut_eq (h : ∀ turn ∈ turns, turn.Read req) :
    (∀ turn ∈ turns, turn.traced.slice.truncated = false) →
      traceCut (turns.map (·.traced)) = none := by
  intro hnone
  unfold traceCut
  have hnil : (turns.map (·.traced)).filter (·.slice.truncated) = [] := by
    refine List.filter_eq_nil_iff.mpr fun x hx => ?_
    obtain ⟨turn, hturn, rfl⟩ := List.mem_map.mp hx
    simp [hnone turn hturn]
  simp only [hnil, List.isEmpty_nil, if_true]

/-- The set of reasons of the turns. -/
def turnReasons (turns : List Turn) : List Reason :=
  (((turns.map (·.traced)).filter (·.slice.truncated)).filterMap (·.slice.reason)).dedup

theorem mem_turnReasons {r : Reason} : r ∈ turnReasons turns ↔
    ∃ turn ∈ turns, turn.traced.slice.truncated = true ∧ turn.traced.slice.reason = some r := by
  unfold turnReasons
  rw [List.mem_dedup, List.mem_filterMap]
  constructor
  · rintro ⟨x, hx, hr⟩
    obtain ⟨hx, ht⟩ := List.mem_filter.mp hx
    obtain ⟨turn, hturn, rfl⟩ := List.mem_map.mp hx
    exact ⟨turn, hturn, ht, hr⟩
  · rintro ⟨turn, hturn, ht, hr⟩
    exact ⟨_, List.mem_filter.mpr ⟨List.mem_map_of_mem hturn, ht⟩, hr⟩

theorem traceCut_of_truncated {turn : Turn} (hturn : turn ∈ turns)
    (ht : turn.traced.slice.truncated = true) : traceCut (turns.map (·.traced)) =
      match turnReasons turns with
      | [reason] => some (.budget reason)
      | _ => some .perSinkBudget := by
  unfold traceCut turnReasons
  have hne : ((turns.map (·.traced)).filter (·.slice.truncated)).isEmpty = false := by
    rw [List.isEmpty_eq_false_iff]
    exact List.ne_nil_of_mem (List.mem_filter.mpr ⟨List.mem_map_of_mem hturn, ht⟩)
  simp only [hne, Bool.false_eq_true, if_false] <;> rfl

/-- One reason of all is kept. -/
theorem traceCut_common {turn : Turn} {r : Reason} (hturn : turn ∈ turns)
    (ht : turn.traced.slice.truncated = true) (hr : turn.traced.slice.reason = some r)
    (hall : ∀ turn' ∈ turns, turn'.traced.slice.truncated = true →
      turn'.traced.slice.reason = some r) :
    traceCut (turns.map (·.traced)) = some (.budget r) := by
  have hone : turnReasons turns = [r] := by
    refine List.Perm.eq_singleton ((List.perm_ext_iff_of_nodup (List.nodup_dedup _)
      (List.nodup_singleton r)).mpr fun r' => ?_)
    rw [List.mem_singleton]
    constructor
    · intro hr'
      obtain ⟨turn', hturn', ht', hrt⟩ := mem_turnReasons.mp hr'
      exact Option.some.inj (hrt.symm.trans (hall turn' hturn' ht'))
    · rintro rfl
      exact mem_turnReasons.mpr ⟨turn, hturn, ht, hr⟩
  rw [traceCut_of_truncated hturn ht, hone]

theorem traceCut_mixed {turn turn' : Turn} {r r' : Reason} (hturn : turn ∈ turns)
    (hturn' : turn' ∈ turns) (ht : turn.traced.slice.truncated = true)
    (ht' : turn'.traced.slice.truncated = true) (hr : turn.traced.slice.reason = some r)
    (hr' : turn'.traced.slice.reason = some r') (hne : r ≠ r') :
    traceCut (turns.map (·.traced)) = some .perSinkBudget := by
  have hmem : r ∈ turnReasons turns := mem_turnReasons.mpr ⟨turn, hturn, ht, hr⟩
  have hmem' : r' ∈ turnReasons turns := mem_turnReasons.mpr ⟨turn', hturn', ht', hr'⟩
  rw [traceCut_of_truncated hturn ht]
  split
  · rename_i reason hone
    rw [hone, List.mem_singleton] at hmem hmem'
    exact absurd (hmem.trans hmem'.symm) hne
  · rfl

/-- What a site says of how it was cut off. -/
theorem Turn.Read.truncation {turn : Turn} (h : turn.Read req) :
    turn.traced.site.truncation.truncated = turn.traced.slice.truncated ∧
      turn.traced.site.truncation.reason = turn.traced.slice.reason ∧
      turn.traced.site.truncation.visitedNodes = turn.traced.slice.visited := by
  rw [h.site]
  exact ⟨rfl, rfl, rfl⟩

theorem traceEnvelope_sites (req : TraceRequest) (inv : String) (turns : List Turn) :
    (traceEnvelope req inv (turns.map (·.traced))).result.sites = turns.map (·.traced.site) := by
  show (turns.map (·.traced)).map (·.site) = _
  rw [List.map_map]
  rfl

theorem visitedNodes_eq (h : ∀ turn ∈ turns, turn.Read req) :
    (turns.map (·.traced.site)).map (·.truncation.visitedNodes) =
      (turns.map (·.traced)).map (·.slice.visited) := by
  rw [List.map_map, List.map_map]
  exact List.map_congr_left fun turn hturn => (h turn hturn).truncation.2.2

/-- **The envelope, from the turns.** -/
theorem traceEnvelope_aggregates (h : ∀ turn ∈ turns, turn.Read req)
    (hb : "boundaries" ∈ req.sections) (hc : "calls" ∈ req.sections) (inv : String) :
    Aggregates (traceEnvelope req inv (turns.map (·.traced))) turns where
  sites := traceEnvelope_sites req inv turns
  count := List.length_map _
  truncated := by
    rw [traceEnvelope_sites]
    show (turns.map (·.traced)).any (·.slice.truncated) = true ↔ _
    rw [List.any_eq_true]
    constructor
    · rintro ⟨x, hx, ht⟩
      obtain ⟨turn, hturn, rfl⟩ := List.mem_map.mp hx
      exact ⟨_, List.mem_map_of_mem hturn, (h turn hturn).truncation.1.trans ht⟩
    · rintro ⟨site, hs, ht⟩
      obtain ⟨turn, hturn, rfl⟩ := List.mem_map.mp hs
      exact ⟨_, List.mem_map_of_mem hturn, (h turn hturn).truncation.1.symm.trans ht⟩
  none hnone := by
    rw [traceEnvelope_sites] at hnone
    exact traceCut_eq h fun turn hturn =>
      (h turn hturn).truncation.1.symm.trans (hnone _ (List.mem_map_of_mem hturn))
  common site hs ht := by
    rw [traceEnvelope_sites] at hs ⊢
    obtain ⟨turn, hturn, rfl⟩ := List.mem_map.mp hs
    obtain ⟨htruncated, hreason, _⟩ := (h turn hturn).truncation
    rw [htruncated] at ht
    obtain ⟨r, hr⟩ := (h turn hturn).reason ht
    refine ⟨r, hreason.trans hr, fun hall => ?_⟩
    refine traceCut_common hturn ht hr fun turn' hturn' ht' => ?_
    obtain ⟨htruncated', hreason', _⟩ := (h turn' hturn').truncation
    rw [← htruncated'] at ht'
    exact hreason'.symm.trans (hall _ (List.mem_map_of_mem hturn') ht')
  mixed site hs site' hs' ht ht' hne := by
    rw [traceEnvelope_sites] at hs hs'
    obtain ⟨turn, hturn, rfl⟩ := List.mem_map.mp hs
    obtain ⟨turn', hturn', rfl⟩ := List.mem_map.mp hs'
    obtain ⟨htruncated, hreason, _⟩ := (h turn hturn).truncation
    obtain ⟨htruncated', hreason', _⟩ := (h turn' hturn').truncation
    rw [htruncated] at ht
    rw [htruncated'] at ht'
    rw [hreason, hreason'] at hne
    obtain ⟨r, hr⟩ := (h turn hturn).reason ht
    obtain ⟨r', hr'⟩ := (h turn' hturn').reason ht'
    refine traceCut_mixed hturn hturn' ht ht' hr hr' fun heq => hne ?_
    rw [hr, hr', heq]
  visited := by
    rw [traceEnvelope_sites, visitedNodes_eq h]
    rfl
  total := by
    rw [traceEnvelope_sites, visitedNodes_eq h]
    rfl
  truncatedSites := by
    rw [traceEnvelope_sites]
    show ((turns.map (·.traced)).filter (·.slice.truncated)).length = _
    rw [List.filter_map, List.filter_map, List.length_map, List.length_map]
    refine congrArg List.length (List.filter_congr fun turn hturn => ?_)
    exact (h turn hturn).truncation.1.symm
  boundaries site hs bs hbs b hbm := by
    rw [traceEnvelope_sites] at hs
    obtain ⟨turn, hturn, rfl⟩ := List.mem_map.mp hs
    obtain rfl := Option.some.inj (((h turn hturn).repeats hb).boundaries.symm.trans hbs)
    exact count_firstOccurrences (List.mem_flatMap.mpr ⟨_, List.mem_map_of_mem hturn, hbm⟩)
  capabilities turn hturn c hc := by
    refine count_firstOccurrences (List.mem_flatMap.mpr ⟨_, List.mem_map_of_mem hturn, ?_⟩)
    unfold Traced.capabilities
    rw [List.append_assoc]
    exact List.mem_append_right _ hc
  directCalls turn hturn hcalls := by
    refine count_firstOccurrences (List.mem_flatMap.mpr ⟨_, List.mem_map_of_mem hturn, ?_⟩)
    unfold Traced.capabilities
    rw [if_pos ⟨hc, hcalls⟩]
    exact List.mem_cons_self
  evidence turn hturn r hr := by
    refine count_firstOccurrences (List.mem_cons_of_mem _
      (List.mem_flatMap.mpr ⟨_, List.mem_map_of_mem hturn, ?_⟩))
    unfold Traced.evidence
    rw [List.append_assoc]
    exact List.mem_append_right _ hr
  callRuns turn hturn call hcall r hr run hrun := by
    refine count_firstOccurrences (List.mem_cons_of_mem _
      (List.mem_flatMap.mpr ⟨_, List.mem_map_of_mem hturn, ?_⟩))
    have hruns : some run ∈ turn.traced.callRuns := by
      rw [(h turn hturn).callRuns, if_pos hc, ← hrun]
      exact List.mem_map.mpr ⟨(call.id, r),
        List.mem_flatMap.mpr ⟨call, hcall, List.mem_map_of_mem hr⟩, rfl⟩
    unfold Traced.evidence
    rw [List.append_assoc]
    exact List.mem_append_left _ (List.mem_filterMap.mpr ⟨_, hruns, rfl⟩)

end Envelope

/-! ## 3. The traces -/

section Traces

variable {env : Environment} {graph : String → String → Outcome}
  {draw : Nat → Nat → MaterializeDraw} {db db₁ db' : Database} {q : Query} {out : TraceEnvelope}

/-- After the trace of a function that is settled each slice answers the same. -/
theorem Query.Traces.slice_after {C : Contents} {adapter : Adapter} {req : TraceRequest}
    {selector : String} (ht : q.Traces env adapter.functionGraph draw db db₁ db' req selector out)
    (h : History C db) (hu : C.Unambiguous) (hans : C.Answered db.toTables adapter) :
    ∀ turn ∈ q.turns env adapter.functionGraph draw db, ∀ d,
      sliceQuery env adapter.functionGraph d turn.sink.id "backward" ["operand"] req.budgetNodes
        req.budgetDepth db' = (db', .ok turn.traced.slice.envelope) := by
  obtain ⟨_, _, _, _, _, _, hset, hhome⟩ := ht.settled h hu hans
  obtain ⟨turns, hloop⟩ := ht.loop
  obtain rfl := hset.traceSinks hhome hloop
  intro turn hturn d
  rw [ht.turns] at hturn
  obtain ⟨hsink, hsliced, _⟩ := hset.turns hhome turn hturn
  obtain ⟨hmem, hhome⟩ := hhome _ hsink
  have hread := (traceTurns_read turn hturn).slice
  rw [hsliced] at hread
  unfold sliceQuery afterEnsure readSliceEnvelope
  rw [hset.ensure (lookup_self db'.constraints.entityKey hmem) hhome]
  dsimp only
  rw [hread]
  rfl

/-! A trace of a function that is settled has nothing to fail on after its own checks. -/

/-- A slice of a known entity along supported relations is answered. -/
theorem readSliceAll_answers {t : Tables} (hc : t.Constraints) {handle direction : String}
    {relations : List String} {budgetNodes budgetDepth : Int} {e : Entity}
    (he : t.entity handle = some e) (hs : checkSupported relations = .ok ()) :
    ∃ out, readSliceAll handle direction relations budgetNodes budgetDepth t = .ok out := by
  obtain ⟨inv, hinv⟩ := investigationId_of_entity hc (mem_of_lookup he)
  have hread : some (readSliceAll handle direction relations budgetNodes budgetDepth t) =
      readSlice t t.turns handle direction relations budgetNodes budgetDepth := Option.some_get _
  unfold readSlice at hread
  simp only [he, hs, hinv] at hread
  obtain ⟨s, _, hs⟩ := Option.map_eq_some_iff.mp hread.symm
  exact ⟨_, hs.symm⟩

theorem readSource_answers {t : Tables} (hc : t.Constraints) {handle : String} {e : Entity}
    (he : t.entity handle = some e) : ∃ out, readSource handle t = .ok out := by
  obtain ⟨inv, hinv⟩ := investigationId_of_entity hc (mem_of_lookup he)
  unfold readSource entityOrThrow
  rw [he, hinv]
  exact ⟨_, rfl⟩

theorem afterEnsure_of_ok {α : Type} {d : MaterializeDraw} {handle : String}
    {read : Tables → Except Thrown α}
    (h : ensureMaterialized env graph d handle db = (db', .ok ())) :
    afterEnsure env graph d handle read db = (db', read db'.toTables) := by
  unfold afterEnsure
  rw [h]

theorem afterEnsure_of_error {α : Type} {d : MaterializeDraw} {handle : String} {e : Thrown}
    {read : Tables → Except Thrown α}
    (h : ensureMaterialized env graph d handle db = (db', .error e)) :
    afterEnsure env graph d handle read db = (db', .error e) := by
  unfold afterEnsure
  rw [h]

theorem Tables.Settled.traceSink_ok {f : String} (h : db.Settled f) {draw : Nat → MaterializeDraw}
    {req : TraceRequest} {sink : Entity} (hsink : sink ∈ db.entities) (hhome : sink.home = some f) :
    ∃ traced, Irez.traceSink env graph draw req sink db = (db, .ok traced) := by
  have hentity : db.entity sink.id = some sink := lookup_self db.constraints.entityKey hsink
  have hsupported : checkSupported ["operand"] = .ok () := checkSupported_ok (by decide)
  obtain ⟨out, hout⟩ : ∃ out, readSliceAll sink.id "backward" ["operand"] req.budgetNodes
      req.budgetDepth db.toTables = .ok out :=
    readSliceAll_answers db.constraints hentity hsupported
  obtain ⟨located, hlocated⟩ := readSource_answers db.constraints hentity
  unfold Irez.traceSink sourceQuery
  simp only [afterEnsure_of_ok (h.ensure hentity hhome), hout, hlocated]
  exact ⟨_, rfl⟩

/-- **The loop over the sinks of a settled function ends well.** -/
theorem Tables.Settled.traceSinks_ok {f : String} (h : db.Settled f)
    {draw : Nat → Nat → MaterializeDraw} {req : TraceRequest} {i : Nat} {sinks : List Entity}
    (hs : ∀ x ∈ sinks, x ∈ db.entities ∧ x.home = some f) :
    ∃ turns, Irez.traceSinks env graph draw req i sinks db = (db, .ok turns) := by
  induction sinks generalizing i with
  | nil => exact ⟨[], rfl⟩
  | cons sink rest ih =>
    obtain ⟨hsink, hhome⟩ := hs sink List.mem_cons_self
    obtain ⟨traced, htraced⟩ : ∃ traced, Irez.traceSink env graph (draw i) req sink db =
        (db, .ok traced) := h.traceSink_ok hsink hhome
    have hrest : ∀ x ∈ rest, x ∈ db.entities ∧ x.home = some f :=
      fun x hx => hs x (List.mem_cons_of_mem _ hx)
    obtain ⟨more, hmore⟩ := ih hrest (i := i + 1)
    unfold Irez.traceSinks
    simp only [htraced, hmore]
    exact ⟨_, rfl⟩

theorem Tables.Settled.runTrace_ok {f : String} (h : db.Settled f)
    {draw : Nat → Nat → MaterializeDraw} {req : TraceRequest} {sinks : List Entity} {e : Entity}
    (he : db.entity f = some e) (hs : ∀ x ∈ sinks, x ∈ db.entities ∧ x.home = some f) :
    ∃ out, Irez.runTrace env graph draw req sinks db = (db, .ok out) := by
  obtain ⟨turns, hturns⟩ : ∃ turns, Irez.traceSinks env graph draw req 0 sinks db =
      (db, .ok turns) := h.traceSinks_ok hs
  obtain ⟨inv, hinv⟩ := investigationId_of_entity db.constraints (mem_of_lookup he)
  unfold Irez.runTrace
  simp only [hturns, hinv]
  exact ⟨_, rfl⟩

/-- What a trace checks of its arguments. -/
def Query.checks (q : Query) (t : Tables) : Except Thrown Unit :=
  match q with
  | .traceReturn handle selector budgetNodes budgetDepth detail includes => do
    let _ ← traceRequest t .ret handle budgetNodes budgetDepth detail includes
    let _ ← selectReturns t handle selector
    .ok ()
  | .traceStores handle budgetNodes budgetDepth detail includes => do
    let _ ← traceRequest t .store handle budgetNodes budgetDepth detail includes
    .ok ()
  | _ => .ok ()

/-- **A trace that fails** did not materialize its function, or refused its arguments. -/
theorem Query.trace_fails {C : Contents} {adapter : Adapter} (h : History C db)
    (hu : C.Unambiguous) (hans : C.Answered db.toTables adapter) (hq : q.trace.isSome)
    {e : Thrown} (he : (q.perform env adapter.functionGraph draw db).2 = .error e) :
    (ensureMaterialized env adapter.functionGraph (draw 0 0) q.handle db).2 = .error e ∨
      ∃ db₁, ensureMaterialized env adapter.functionGraph (draw 0 0) q.handle db = (db₁, .ok ()) ∧
        q.checks db₁.toTables = .error e := by
  cases hens : ensureMaterialized env adapter.functionGraph (draw 0 0) q.handle db with
  | mk db₁ result =>
  cases result with
  | error e' =>
    left
    cases q with
    | traceReturn | traceStores =>
      simp only [Query.handle] at hens
      simp only [Query.perform, respond, Irez.traceReturn, Irez.traceStores,
        afterEnsure_of_error hens] at he
      obtain rfl : e' = e := Except.error.inj he
      rfl
    | _ => cases hq
  | ok u =>
    right
    refine ⟨db₁, rfl, ?_⟩
    cases q with
    | traceReturn handle selector budgetNodes budgetDepth detail includes =>
      simp only [Query.handle] at hens
      simp only [Query.perform, respond, Irez.traceReturn, afterEnsure_of_ok hens] at he
      simp only [Query.checks]
      cases hreq : traceRequest db₁.toTables .ret handle budgetNodes budgetDepth detail includes with
      | error e' =>
        rw [hreq] at he
        obtain rfl : e' = e := Except.error.inj he
        rfl
      | ok req =>
        cases hsel : selectReturns db₁.toTables handle selector with
        | error e' =>
          rw [hreq, hsel] at he
          obtain rfl : e' = e := Except.error.inj he
          rfl
        | ok returns =>
          rw [hreq, hsel] at he
          obtain ⟨function, hfunction, _, _⟩ := traceRequest_ok hreq
          obtain ⟨_, _, _, hentity, _, hset, hhome⟩ := h.settled_function hu hans hens hfunction
          obtain ⟨out, hout⟩ : ∃ out, runTrace env adapter.functionGraph (fun i => draw (i + 1)) req
              returns db₁ = (db₁, .ok out) := by
            refine hset.runTrace_ok hentity fun x hx => ?_
            obtain ⟨hm, ho, _⟩ := (selectReturns_ok db₁.constraints hsel x).mp hx
            exact ⟨hm, hhome x hm ho⟩
          simp only [bind, Except.bind, hout] at he
          cases he
    | traceStores handle budgetNodes budgetDepth detail includes =>
      simp only [Query.handle] at hens
      simp only [Query.perform, respond, Irez.traceStores, afterEnsure_of_ok hens] at he
      simp only [Query.checks]
      cases hreq : traceRequest db₁.toTables .store handle budgetNodes budgetDepth detail includes with
      | error e' =>
        rw [hreq] at he
        obtain rfl : e' = e := Except.error.inj he
        rfl
      | ok req =>
        rw [hreq] at he
        obtain ⟨function, hfunction, _, _⟩ := traceRequest_ok hreq
        obtain ⟨_, _, _, hentity, _, hset, hhome⟩ := h.settled_function hu hans hens hfunction
        obtain ⟨out, hout⟩ : ∃ out, runTrace env adapter.functionGraph (fun i => draw (i + 1)) req
            (orderedByOrdinal (db₁.entitiesOf handle (·.opcode = some "store"))) db₁ =
              (db₁, .ok out) := by
          refine hset.runTrace_ok hentity fun x hx => ?_
          obtain ⟨hm, ho, _⟩ := mem_entitiesOf.mp hx
          exact ⟨hm, hhome x hm ho⟩
        simp only [bind, Except.bind, hout] at he
        cases he
    | _ => cases hq

/-- **An answer that is the aggregate of its slices**: one site for each sink, in the order
    of ordinals and handles; each site says what the backward operand slice of its sink answers in the state in which it runs, which
    after every history over unambiguous modules is the state that the trace leaves; and the
    envelope is the aggregate of the sites. -/
structure Query.AggregatesSlices (env : Environment) (graph : String → String → Outcome)
    (draw : Nat → Nat → MaterializeDraw) (q : Query) (db db₁ db' : Database)
    (budgetNodes budgetDepth : Int) (out : TraceEnvelope) : Prop where
  ensured : ensureMaterialized env graph (draw 0 0) q.handle db = (db₁, .ok ())
  sinks : (q.turns env graph draw db).map (·.sink) = q.sinks db₁.toTables
  ordered : (q.sinks db₁.toTables).Pairwise fun x y => x.ordinalKey ≤ y.ordinalKey
  sites : out.result.sites.map (·.sink) = (q.sinks db₁.toTables).map (·.compact)
  aggregates : Aggregates out (q.turns env graph draw db)
  repeats : ∀ turn ∈ q.turns env graph draw db,
    turn.traced.site.Repeats turn.traced.slice.envelope
  slices : ∀ turn ∈ q.turns env graph draw db,
    ∃ db₂ db₃ d, Relation.ReflTransGen (EnsureStep env graph fun i => draw (i + 1)) db₁ db₂ ∧
      sliceQuery env graph d turn.sink.id "backward" ["operand"] budgetNodes budgetDepth db₂ =
        (db₃, .ok turn.traced.slice.envelope)
  alone : ∀ (C : Contents) (adapter : Adapter), graph = adapter.functionGraph → History C db →
    C.Unambiguous → C.Answered db.toTables adapter → ∀ turn ∈ q.turns env graph draw db, ∀ d,
      sliceQuery env graph d turn.sink.id "backward" ["operand"] budgetNodes budgetDepth db' =
        (db', .ok turn.traced.slice.envelope)

/-- The sinks are ordered by ordinal and handle. -/
theorem Query.sinks_ordered (q : Query) (t : Tables) :
    (q.sinks t).Pairwise fun x y => x.ordinalKey ≤ y.ordinalKey := by
  cases q with
  | traceReturn handle selector budgetNodes budgetDepth detail includes =>
    unfold Query.sinks
    dsimp only
    split
    · rename_i returns hreturns
      unfold selectReturns at hreturns
      split at hreturns
      · cases hreturns
        exact List.pairwise_insertionSort _ _
      · split at hreturns
        · cases hreturns
          exact List.pairwise_singleton _ _
        · cases hreturns
    · exact .nil
  | traceStores handle budgetNodes budgetDepth detail includes =>
    exact List.pairwise_insertionSort _ _
  | _ => exact .nil

theorem Query.Traces.aggregatesSlices {req : TraceRequest} {selector : String}
    (ht : q.Traces env graph draw db db₁ db' req selector out)
    (h : q.perform env graph draw db = (db', .ok (.trace out))) :
    q.AggregatesSlices env graph draw db db₁ db' req.budgetNodes req.budgetDepth out := by
  obtain ⟨req', inv, extra, hsections, hread, _, hout⟩ := Query.turns_read h
  have hagg : Aggregates out (q.turns env graph draw db) := by
    have hturns := traceEnvelope_aggregates hread (hsections _ (by decide))
      (hsections _ (by decide)) inv
    rw [hout]
    exact ⟨hturns.sites, hturns.count, hturns.truncated, hturns.none, hturns.common, hturns.mixed,
      hturns.visited, hturns.total, hturns.truncatedSites, hturns.boundaries, hturns.capabilities,
      hturns.directCalls, hturns.evidence, hturns.callRuns⟩
  refine ⟨ht.ensured, ht.sinks, q.sinks_ordered _, ?_, hagg, fun turn hturn => ?_, ?_, ?_⟩
  · rw [hagg.sites, ← ht.sinks, List.map_map, List.map_map]
    refine List.map_congr_left fun turn hturn => ?_
    show turn.traced.site.sink = turn.sink.compact
    rw [(hread turn hturn).site]
    rfl
  · exact (hread turn hturn).repeats (hsections _ (by decide))
  · rw [ht.turns]
    exact traceTurns_slice
  · rintro C adapter rfl hh hu hans
    exact ht.slice_after hh hu hans

/-- **A composed trace is the exact aggregate of its slices**, whenever it answers; and after
    every history over unambiguous modules it answers, unless its function is not materialized
    or its arguments are refused. -/
theorem trace_is_aggregate (env : Environment) (graph : String → String → Outcome)
    (draw : Nat → Nat → MaterializeDraw) (q : Query) (db : Database) :
    (∀ db' out, q.perform env graph draw db = (db', .ok (.trace out)) →
      ∃ kind selector budgetNodes budgetDepth db₁,
        q.trace = some (kind, selector, budgetNodes, budgetDepth) ∧
        q.AggregatesSlices env graph draw db db₁ db' budgetNodes budgetDepth out) ∧
    ∀ (C : Contents) (adapter : Adapter), graph = adapter.functionGraph → History C db →
      C.Unambiguous → C.Answered db.toTables adapter → q.trace.isSome →
        ∀ e, (q.perform env graph draw db).2 = .error e →
          (ensureMaterialized env graph (draw 0 0) q.handle db).2 = .error e ∨
          ∃ db₁, ensureMaterialized env graph (draw 0 0) q.handle db = (db₁, .ok ()) ∧
            q.checks db₁.toTables = .error e := by
  constructor
  · intro db' out h
    obtain ⟨db₁, req, selector, ht⟩ := Query.perform_trace h
    exact ⟨_, _, _, _, db₁, ht.trace, ht.aggregatesSlices h⟩
  · rintro C adapter rfl h hu hans hq e he
    exact Query.trace_fails h hu hans hq he

end Traces

namespace TwoReturns

/-- `%y = freeze (call ...)` is returned from one block, `%z = select %c, %a, %b` from another. -/
def main : Function :=
  { Collision.function "main" with
    arguments := [⟨"c", "i1", "i1 %c"⟩, ⟨"a", "i32", "i32 %a"⟩, ⟨"b", "i32", "i32 %b"⟩]
    blocks := [
      ⟨"entry", [], { Collision.instruction "br" with operands := [.argument 0, .block 2, .block 1] },
        .conditionalBranch, [1, 2]⟩,
      ⟨"left", [{ Collision.instruction "call" with operands := [.argument 1], call := some .indirect },
          { Collision.instruction "freeze" with operands := [.instruction 1] }],
        { Collision.instruction "ret" with operands := [.instruction 2] }, .other, []⟩,
      ⟨"right",
        [{ Collision.instruction "select" with operands := [.argument 0, .argument 1, .argument 2] }],
        { Collision.instruction "ret" with operands := [.instruction 4] }, .other, []⟩]
    successors_lt := by decide }

def module : Module := { Collision.module with functions := [main] }

/-- `trace-return f0 --budget-nodes 4 --budget-depth 2`. -/
def query : Query := .traceReturn Collision.f0 "all" 4 2 "summary" []

def call : Database × Except Thrown Response :=
  query.perform Sample.environment (singleAdapter module).functionGraph Uncollected.draw
    (singleCatalogued module)

/-- The sites of a trace that is answered: whether each is cut off, and why. -/
def cuts : Except Thrown Response → List (Bool × Option Reason)
  | .ok (.trace out) => out.result.sites.map fun site =>
    (site.truncation.truncated, site.truncation.reason)
  | _ => []

end TwoReturns

open TwoReturns in
/-- The first return is cut off by the depth and the second by the number of nodes: the trace is
    cut off per sink. -/
theorem trace_is_aggregate_cut :
    ∃ db' out, call = (db', .ok (.trace out)) ∧ out.truncated = true ∧
      out.reason = some .perSinkBudget ∧
      out.result.sites.map (fun site => (site.truncation.truncated, site.truncation.reason)) =
        [(true, some .depthBudget), (true, some .nodeBudget)] := by
  have hcuts : cuts call.2 = [(true, some .depthBudget), (true, some .nodeBudget)] := by
    decide +kernel
  generalize h : call = answer at hcuts ⊢
  obtain ⟨db', e | out⟩ := answer
  · cases hcuts
  · cases out with
    | trace out =>
      obtain ⟨_, _, _, _, _, _, hagg⟩ :=
        (trace_is_aggregate Sample.environment _ Uncollected.draw query _).1 db' out h
      have hsites : out.result.sites.map (fun site =>
          (site.truncation.truncated, site.truncation.reason)) =
          [(true, some .depthBudget), (true, some .nodeBudget)] := hcuts
      obtain ⟨first, hfirst, hcut⟩ : ∃ site ∈ out.result.sites,
          (site.truncation.truncated, site.truncation.reason) = (true, some .depthBudget) := by
        refine List.mem_map.mp ?_
        rw [hsites]
        exact List.mem_cons_self
      obtain ⟨second, hsecond, hcut'⟩ : ∃ site ∈ out.result.sites,
          (site.truncation.truncated, site.truncation.reason) = (true, some .nodeBudget) := by
        refine List.mem_map.mp ?_
        rw [hsites]
        exact List.mem_cons_of_mem _ List.mem_cons_self
      obtain ⟨ht, hr⟩ := Prod.mk.inj hcut
      obtain ⟨ht', hr'⟩ := Prod.mk.inj hcut'
      refine ⟨db', out, rfl, hagg.aggregates.truncated.mpr ⟨first, hfirst, ht⟩,
        hagg.aggregates.mixed first hfirst second hsecond ht ht' ?_, hsites⟩
      rw [hr, hr']
      decide
    | _ => cases hcuts

end Irez
