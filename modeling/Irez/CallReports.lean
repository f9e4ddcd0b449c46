/-
  File:      Irez/CallReports.lean
  Subject:   What a trace says about the calls it visits (service.cpp 1966-2029,
             adapter.cpp 368-380).

  A trace looks for calls by the opcode text `call`, and reports a call by its relations.

  * `Query.turns` -- the turns of the loop over the sinks, each with the tables it read;
  * `CallReported` -- what it means that a call-like instruction is not dropped;
  * `trace_reports_calls` -- a visited call-like instruction is reported if and only if it is
    a `call` with a call relation;
  * `trace_drops_calls` -- a trace that drops an indirect call and an invoke.
-/
import Irez.Refresh
import Irez.Trace

open Irez.Basis

namespace Irez

/-! ## 1. The turns of a trace -/

/-- A turn of a trace: its sink, the tables its slice read, the tables everything else in its
    site was read from, and what it answered. -/
structure Turn where
  sink : Entity
  sliced : Tables
  tables : Tables
  traced : Traced

/-- The turns of the loop over the sinks. -/
def traceTurns (env : Environment) (graph : String → String → Outcome)
    (draw : Nat → Nat → MaterializeDraw) (req : TraceRequest) :
    Nat → List Entity → Database → List Turn
  | _, [], _ => []
  | i, sink :: rest, db =>
    match traceSink env graph (draw i) req sink db with
    | (_, .error _) => []
    | (db₁, .ok traced) =>
      ⟨sink, (ensureMaterialized env graph (draw i 0) sink.id db).1.toTables, db₁.toTables, traced⟩ ::
        traceTurns env graph draw req (i + 1) rest db₁

/-- The turns of a query: those of a trace. -/
def Query.turns (env : Environment) (graph : String → String → Outcome)
    (draw : Nat → Nat → MaterializeDraw) (q : Query) (db : Database) : List Turn :=
  match q with
  | .traceReturn handle selector budgetNodes budgetDepth detail includes =>
    match afterEnsure env graph (draw 0 0) handle (fun t => do
        let req ← traceRequest t .ret handle budgetNodes budgetDepth detail includes
        let returns ← selectReturns t handle selector
        .ok (req, returns, resultChannel t handle returns)) db with
    | (_, .error _) => []
    | (db₁, .ok (req, returns, _)) => traceTurns env graph (fun i => draw (i + 1)) req 0 returns db₁
  | .traceStores handle budgetNodes budgetDepth detail includes =>
    match afterEnsure env graph (draw 0 0) handle (fun t => do
        let req ← traceRequest t .store handle budgetNodes budgetDepth detail includes
        .ok (req, orderedByOrdinal (t.entitiesOf handle (·.opcode = some "store")))) db with
    | (_, .error _) => []
    | (db₁, .ok (req, stores)) => traceTurns env graph (fun i => draw (i + 1)) req 0 stores db₁
  | _ => []

/-! ## 2. Reported calls -/

/-- The instructions of `CallBase`. -/
def Entity.CallLike (e : Entity) : Prop :=
  e.opcode = some "call" ∨ e.opcode = some "invoke" ∨ e.opcode = some "callbr"

/-- The texts of an entry of `unknowns`. -/
def Unknown.texts (u : Unknown) : List String :=
  u.kind.toList ++ u.relation.toList ++ [u.status, u.reason] ++ u.hint.toList

/-- An entry says something of a call: the word is in one of its texts. -/
def Unknown.MentionsCalls (u : Unknown) : Prop := ∃ s ∈ u.texts, "call".toList <:+: s.toList

instance (u : Unknown) : Decidable u.MentionsCalls :=
  inferInstanceAs (Decidable (∃ s ∈ u.texts, "call".toList <:+: s.toList))

/-- The `llvm.calls` rows that leave an entity. -/
def Tables.callRows (t : Tables) (call : String) : List Relation :=
  t.relations.filter fun r => r.srcId = call && r.kind = "llvm.calls"

/-- **A call that is not dropped**: its relations are the entries of `call_boundaries` that
    name it, one for each; without a relation it is an unknown, or a boundary of unknown
    status. -/
structure CallReported (t : Tables) (site : Site) (unknowns : List Unknown) (e : Entity) : Prop where
  direct : t.callRows e.id ≠ [] → ∃ entries, site.callBoundaries = some entries ∧
    (entries.filter (·.call = e.id)).Perm ((t.callRows e.id).map (t.callBoundary e.id))
  indirect : t.callRows e.id = [] →
    (∃ entries, site.callBoundaries = some entries ∧ ∃ b ∈ entries, b.call = e.id ∧
      b.status = .unknown) ∨ ∃ u ∈ unknowns, u.MentionsCalls

/-! ## 3. What a turn reads -/

/-- What a turn read, and from which tables. -/
structure Turn.Read (req : TraceRequest) (turn : Turn) : Prop where
  slice : readSliceAll turn.sink.id "backward" ["operand"] req.budgetNodes req.budgetDepth
    turn.sliced = .ok turn.traced.slice
  source : readSource turn.sink.id turn.tables = .ok turn.traced.source
  site : turn.traced.site =
    traceSite req turn.tables turn.sink turn.traced.slice turn.traced.source
  callRuns : turn.traced.callRuns = if "calls" ∈ req.sections then
    (turn.tables.tracedCalls turn.traced.slice).map fun (_, r) => r.analysisRunId else []

section Turns

variable {env : Environment} {graph : String → String → Outcome}
  {draw : Nat → Nat → MaterializeDraw} {req : TraceRequest} {db db' : Database}

theorem traceSink_read {i : Nat} {sink : Entity} {traced : Traced}
    (h : traceSink env graph (draw i) req sink db = (db', .ok traced)) :
    Turn.Read req ⟨sink, (ensureMaterialized env graph (draw i 0) sink.id db).1.toTables,
      db'.toTables, traced⟩ := by
  unfold traceSink at h
  split at h
  · cases h
  · rename_i db₁ out h₁
    obtain ⟨hens, hslice⟩ := afterEnsure_ok h₁
    split at h
    · cases h
    · rename_i db₂ located h₂
      cases h
      have hsource := (afterEnsure_ok h₂).2
      exact ⟨by rw [hens]; exact hslice, hsource, rfl, rfl⟩

theorem traceTurns_read {i : Nat} {sinks : List Entity} :
    ∀ turn ∈ traceTurns env graph draw req i sinks db, turn.Read req := by
  induction sinks generalizing i db with
  | nil => exact fun turn h => absurd h List.not_mem_nil
  | cons sink rest ih =>
    intro turn h
    unfold traceTurns at h
    split at h
    · exact absurd h List.not_mem_nil
    · rename_i db₁ traced hsink
      rcases List.mem_cons.mp h with rfl | h
      · exact traceSink_read hsink
      · exact ih turn h

/-- The turns are those the loop answers. -/
theorem traceSinks_turns {i : Nat} {sinks : List Entity} {turns : List Traced}
    (h : traceSinks env graph draw req i sinks db = (db', .ok turns)) :
    turns = (traceTurns env graph draw req i sinks db).map (·.traced) := by
  induction sinks generalizing i db turns with
  | nil =>
    cases h
    rfl
  | cons sink rest ih =>
    unfold traceSinks at h
    split at h
    · cases h
    · rename_i db₁ traced hsink
      split at h
      · cases h
      · rename_i db₂ more hmore
        cases h
        unfold traceTurns
        rw [hsink, List.map_cons, ← ih hmore]

theorem runTrace_turns {sinks : List Entity} {out : TraceEnvelope}
    (h : runTrace env graph draw req sinks db = (db', .ok out)) :
    ∃ inv, out = traceEnvelope req inv ((traceTurns env graph draw req 0 sinks db).map (·.traced)) := by
  unfold runTrace at h
  split at h
  · cases h
  · rename_i db₁ turns hturns
    rw [← traceSinks_turns hturns]
    cases hinv : investigationId db₁.toTables with
    | error e =>
      rw [hinv] at h
      cases h
    | ok inv =>
      rw [hinv] at h
      cases h
      exact ⟨inv, rfl⟩

/-- The sections that every `detail` shows. -/
theorem mem_sections {detail : String} {includes : List String} :
    ∀ name ∈ ["calls", "source", "boundaries"],
      name ∈ sortedUnique (detailSections detail ++ includes) := by
  have hdetail : ∀ name ∈ ["calls", "source", "boundaries"], name ∈ detailSections detail := by
    unfold detailSections
    split <;> decide
  exact fun name hname => mem_sortedUnique.mpr (List.mem_append_left _ (hdetail name hname))

/-- A request names its function and its budgets, and the sections of its `detail`. -/
theorem traceRequest_ok {t : Tables} {kind : SinkKind} {handle detail : String}
    {budgetNodes budgetDepth : Int} {includes : List String}
    (h : traceRequest t kind handle budgetNodes budgetDepth detail includes = .ok req) :
    ∃ function, t.function handle = some function ∧ (∀ name ∈ includes, name ∈ knownSections) ∧
      req = ⟨function, kind, sortedUnique (detailSections detail ++ includes), detail, budgetNodes,
        budgetDepth⟩ := by
  unfold traceRequest at h
  dsimp only at h
  split at h
  case h_2 =>
    obtain ⟨_, hf, _⟩ := bind_eq_ok h
    cases hf
  rename_i f hfunction
  obtain ⟨function, hf, h⟩ := bind_eq_ok h
  cases hf
  obtain ⟨_, _, h⟩ := bind_eq_ok h
  obtain ⟨_, _, h⟩ := bind_eq_ok h
  obtain ⟨sections, hsections, h⟩ := bind_eq_ok h
  cases h
  unfold resolveTraceSections at hsections
  split at hsections
  · cases hsections
  · rename_i hnone
    cases hsections
    refine ⟨_, hfunction, fun name hname => ?_, rfl⟩
    simpa using List.find?_eq_none.mp hnone name hname

/-- **What a trace answers**, from the turns of its loop. -/
theorem Query.turns_read {q : Query} {out : TraceEnvelope}
    (h : q.perform env graph draw db = (db', .ok (.trace out))) :
    ∃ req inv extra, (∀ name ∈ ["calls", "source", "boundaries"], name ∈ req.sections) ∧
      (∀ turn ∈ q.turns env graph draw db, turn.Read req) ∧
      (∀ u ∈ extra, u = resultChannelUnknown) ∧
      out = { traceEnvelope req inv ((q.turns env graph draw db).map (·.traced)) with
        unknowns := (traceEnvelope req inv ((q.turns env graph draw db).map (·.traced))).unknowns ++
          extra } := by
  cases q with
  | traceReturn handle selector budgetNodes budgetDepth detail includes =>
    obtain ⟨a, ha, hout⟩ := respond_ok h
    cases hout
    unfold Irez.traceReturn at ha
    split at ha
    · cases ha
    · rename_i db₁ req returns extra h₁
      have hread := (afterEnsure_ok h₁).2
      simp only [Query.turns, h₁]
      split at ha
      · cases ha
      · rename_i db₂ env₂ hrun
        cases ha
        obtain ⟨inv, rfl⟩ := runTrace_turns hrun
        obtain ⟨req', hreq, hread⟩ := bind_eq_ok hread
        obtain ⟨returns', _, hread⟩ := bind_eq_ok hread
        cases hread
        obtain ⟨_, _, _, rfl⟩ := traceRequest_ok hreq
        refine ⟨_, inv, _, mem_sections, traceTurns_read, ?_, rfl⟩
        intro u hu
        unfold resultChannel at hu
        split at hu
        · exact List.mem_singleton.mp hu
        · exact absurd hu List.not_mem_nil
  | traceStores handle budgetNodes budgetDepth detail includes =>
    obtain ⟨a, ha, hout⟩ := respond_ok h
    cases hout
    unfold Irez.traceStores at ha
    split at ha
    · cases ha
    · rename_i db₁ req stores h₁
      have hread := (afterEnsure_ok h₁).2
      simp only [Query.turns, h₁]
      obtain ⟨inv, rfl⟩ := runTrace_turns ha
      obtain ⟨req', hreq, hread⟩ := bind_eq_ok hread
      cases hread
      obtain ⟨_, _, _, rfl⟩ := traceRequest_ok hreq
      refine ⟨_, inv, [], mem_sections, traceTurns_read, ?_, ?_⟩
      · exact fun u hu => absurd hu List.not_mem_nil
      · rw [List.append_nil]
  | _ =>
    obtain ⟨a, _, hout⟩ := respond_ok h
    cases hout

end Turns

/-! ## 4. The nodes of a slice -/

/-- The end of the loop a slice is built from. -/
theorem readSliceAll_ok {t : Tables} {handle direction : String} {relations : List String}
    {budgetNodes budgetDepth : Int} {out : SliceResponse}
    (h : readSliceAll handle direction relations budgetNodes budgetDepth t = .ok out) :
    ∃ target inv s, t.entity handle = some target ∧
      (Search.initial handle).run (t.adjacency target.scope (traversedKinds t target.scope
        (requestedKinds relations)) direction) (Relation.nxt direction) budgetNodes budgetDepth
        t.turns = some s ∧
      Search.Sound (t.adjacency target.scope (traversedKinds t target.scope
        (requestedKinds relations)) direction) (Relation.nxt direction) budgetNodes budgetDepth
        handle s ∧ s.queue = [] ∧
      out = sliceResponse t inv target (traversedKinds t target.scope (requestedKinds relations))
        (sliceUnknowns t target.scope (requestedKinds relations)) direction budgetNodes budgetDepth
        s := by
  have hread : readSlice t t.turns handle direction relations budgetNodes budgetDepth =
      some (.ok out) := by
    rw [← h]
    exact (Option.some_get _).symm
  unfold readSlice at hread
  cases htarget : t.entity handle with
  | none =>
    rw [htarget] at hread
    cases hread
  | some target =>
    rw [htarget] at hread
    cases hsupported : checkSupported relations with
    | error e =>
      rw [hsupported] at hread
      cases hread
    | ok u =>
      rw [hsupported] at hread
      obtain ⟨s, hrun, hs⟩ := Option.map_eq_some_iff.mp hread
      cases hinv : investigationId t with
      | error e =>
        rw [hinv] at hs
        cases hs
      | ok inv =>
        rw [hinv] at hs
        cases hs
        obtain ⟨hsound, hqueue⟩ := (Search.Sound.initial handle).run hrun
        exact ⟨target, inv, s, rfl, hrun, hsound, hqueue, rfl⟩

theorem filterMap_entity_ids (t : Tables) (ids : List String) :
    ((ids.filterMap t.entity).map (·.id)).Sublist ids := by
  induction ids with
  | nil => exact .slnil
  | cons id ids ih =>
    cases he : t.entity id with
    | none =>
      rw [List.filterMap_cons_none he]
      exact ih.cons id
    | some e =>
      rw [List.filterMap_cons_some he, List.map_cons, key_of_lookup he]
      exact ih.cons₂ id

/-- No node is listed twice. -/
theorem readSliceAll_keyed {t : Tables} {handle direction : String} {relations : List String}
    {budgetNodes budgetDepth : Int} {out : SliceResponse}
    (h : readSliceAll handle direction relations budgetNodes budgetDepth t = .ok out) :
    Keyed (·.id) out.nodes := by
  obtain ⟨target, inv, s, _, _, hsound, hqueue, rfl⟩ := readSliceAll_ok h
  have hnodup : s.seen.Nodup := hsound.seen_eq_known hqueue ▸ hsound.known_nodup
  exact (filterMap_entity_ids t s.seen).nodup hnodup

/-! ## 5. The entries of `call_boundaries` -/

@[simp] theorem callBoundary_call {t : Tables} {call : String} {r : Relation} :
    (t.callBoundary call r).call = call := by
  unfold Tables.callBoundary
  split <;> rfl

theorem callRelations_perm (t : Tables) (call : String) :
    (t.callRelations call).Perm (t.callRows call) := List.perm_insertionSort _ _

/-- The entries a site makes of the call relations of its nodes. -/
def Tables.callEntries (t : Tables) (out : SliceResponse) : List CallBoundary :=
  (t.tracedCalls out).map fun (call, r) => t.callBoundary call r

theorem callEntries_eq (t : Tables) (out : SliceResponse) :
    t.callEntries out =
      out.callNodes.flatMap fun e => (t.callRelations e.id).map (t.callBoundary e.id) := by
  unfold Tables.callEntries Tables.tracedCalls
  rw [List.map_flatMap]
  refine List.flatMap_congr fun e _ => ?_
  rw [List.map_map]
  rfl

theorem mem_callEntries {t : Tables} {out : SliceResponse} {b : CallBoundary} :
    b ∈ t.callEntries out ↔
      ∃ e ∈ out.callNodes, ∃ r ∈ t.callRelations e.id, t.callBoundary e.id r = b := by
  rw [callEntries_eq, List.mem_flatMap]
  exact exists_congr fun e => and_congr_right fun _ => List.mem_map

theorem flatMap_ite {α β : Type} {p : α → Prop} [DecidablePred p] {f : α → List β} (l : List α) :
    (l.flatMap fun a => if p a then f a else []) = (l.filter fun a => p a).flatMap f := by
  induction l with
  | nil => rfl
  | cons a l ih =>
    by_cases ha : p a
    · rw [List.flatMap_cons, if_pos ha, ih, List.filter_cons_of_pos (by simpa using ha),
        List.flatMap_cons]
    · rw [List.flatMap_cons, if_neg ha, ih, List.filter_cons_of_neg (by simpa using ha),
        List.nil_append]

/-- **The entries that name a call node are those of its relations.** -/
theorem callEntries_filter {t : Tables} {out : SliceResponse} (hkeyed : Keyed (·.id) out.nodes)
    {e : Entity} (he : e ∈ out.nodes) (hcall : e.opcode = some "call") :
    (t.callEntries out).filter (·.call = e.id) =
      (t.callRelations e.id).map (t.callBoundary e.id) := by
  have hkeyed' : Keyed (·.id) out.callNodes :=
    (List.filter_sublist.map fun x : Entity => x.id).nodup hkeyed
  have hmem : e ∈ out.callNodes := List.mem_filter.mpr ⟨he, decide_eq_true hcall⟩
  have hparts : ∀ e' : Entity,
      ((t.callRelations e'.id).map (t.callBoundary e'.id)).filter (·.call = e.id) =
        if e'.id = e.id then (t.callRelations e'.id).map (t.callBoundary e'.id) else [] := by
    intro e'
    rw [List.filter_map]
    by_cases hid : e'.id = e.id
    · rw [if_pos hid, List.filter_eq_self.mpr]
      exact fun r _ => by simp [hid]
    · rw [if_neg hid, List.filter_eq_nil_iff.mpr, List.map_nil]
      exact fun r _ => by simp [hid]
  have hone := hkeyed'.filter_eq hmem
  rw [callEntries_eq, List.filter_flatMap]
  simp only [hparts]
  rw [flatMap_ite, hone, List.flatMap_singleton]

/-! ## 6. The unknowns of a trace -/

theorem mem_sliceUnknowns {t : Tables} {functionId : Option String} {kinds : List String}
    {u : Unknown} (h : u ∈ sliceUnknowns t functionId kinds) :
    u = scopeUnknown ∨ u = controlDependenceUnknown := by
  rcases List.mem_append.mp h with h | h
  · split at h
    · exact .inl (List.mem_singleton.mp h)
    · exact absurd h List.not_mem_nil
  · split at h
    · exact .inr (List.mem_singleton.mp h)
    · exact absurd h List.not_mem_nil

theorem readSource_unknowns {t : Tables} {handle : String} {out : Envelope (List SourceLine)}
    (h : readSource handle t = .ok out) : ∀ u ∈ out.unknowns, u = sourceUnknown := by
  unfold readSource at h
  obtain ⟨entity, _, h⟩ := bind_eq_ok h
  obtain ⟨inv, _, h⟩ := bind_eq_ok h
  cases h
  intro u hu
  dsimp only at hu
  split at hu
  · exact List.mem_singleton.mp hu
  · exact absurd hu List.not_mem_nil

/-- **The unknowns of a trace**, before those of its command. -/
theorem traceEnvelope_unknowns {req : TraceRequest} {inv : String} {turns : List Turn}
    (h : ∀ turn ∈ turns, turn.Read req) :
    ∀ u ∈ (traceEnvelope req inv (turns.map (·.traced))).unknowns,
      u = noSinks req.sinkKind ∨ u = scopeUnknown ∨ u = controlDependenceUnknown ∨
        u = sourceUnknown := by
  intro u hu
  rcases List.mem_append.mp hu with hu | hu
  · split at hu
    · exact .inl (List.mem_singleton.mp hu)
    · exact absurd hu List.not_mem_nil
  · obtain ⟨traced, htraced, hu⟩ := List.mem_flatMap.mp hu
    obtain ⟨turn, hturn, rfl⟩ := List.mem_map.mp htraced
    rcases List.mem_append.mp hu with hu | hu
    · obtain ⟨target, _, s, _, _, _, _, hout⟩ := readSliceAll_ok (h turn hturn).slice
      rw [hout] at hu
      rcases mem_sliceUnknowns hu with hu | hu
      · exact .inr (.inl hu)
      · exact .inr (.inr (.inl hu))
    · exact .inr (.inr (.inr (readSource_unknowns (h turn hturn).source u hu)))

/-- No entry a trace makes is about a call. -/
theorem traceEnvelope_silent {req : TraceRequest} {inv : String} {turns : List Turn}
    (h : ∀ turn ∈ turns, turn.Read req) :
    ∀ u ∈ (traceEnvelope req inv (turns.map (·.traced))).unknowns, ¬ u.MentionsCalls := by
  have hnone : ∀ kind, ¬ (noSinks kind).MentionsCalls := by
    intro kind
    cases kind <;> decide +kernel
  have hscope : ¬ scopeUnknown.MentionsCalls := by decide +kernel
  have hcontrol : ¬ controlDependenceUnknown.MentionsCalls := by decide +kernel
  have hsource : ¬ sourceUnknown.MentionsCalls := by decide +kernel
  intro u hu
  rcases traceEnvelope_unknowns h u hu with rfl | rfl | rfl | rfl
  · exact hnone _
  · exact hscope
  · exact hcontrol
  · exact hsource

/-! ## 7. Which calls are reported -/

section Reports

variable {env : Environment} {graph : String → String → Outcome}
  {draw : Nat → Nat → MaterializeDraw} {db db' : Database} {q : Query} {out : TraceEnvelope}

/-- **A trace reports a call-like instruction it visits if and only if it is a `call` with a
    call relation**: an `invoke` or a `callbr` has no entry, and a call without a relation is
    neither an unknown nor a boundary. -/
theorem trace_reports_calls (h : q.perform env graph draw db = (db', .ok (.trace out))) :
    out.result.sites = (q.turns env graph draw db).map (·.traced.site) ∧
      ∀ turn ∈ q.turns env graph draw db, ∀ e ∈ turn.traced.slice.nodes, e.CallLike →
        (CallReported turn.tables turn.traced.site out.unknowns e ↔
          e.opcode = some "call" ∧ turn.tables.callRows e.id ≠ []) := by
  obtain ⟨req, inv, extra, hsections, hread, hextra, rfl⟩ := Query.turns_read h
  have hcalls : "calls" ∈ req.sections := hsections _ (by decide)
  refine ⟨List.map_map, fun turn hturn e he hlike => ?_⟩
  have hr := hread turn hturn
  have hkeyed := readSliceAll_keyed hr.slice
  have hentries : turn.traced.site.callBoundaries =
      some (turn.tables.callEntries turn.traced.slice) := by
    rw [hr.site]
    exact if_pos hcalls
  have hsilent : ∀ u ∈ (traceEnvelope req inv
      ((q.turns env graph draw db).map (·.traced))).unknowns ++ extra, ¬ u.MentionsCalls := by
    intro u hu
    rcases List.mem_append.mp hu with hu | hu
    · exact traceEnvelope_silent hread u hu
    · have hchannel : ¬ resultChannelUnknown.MentionsCalls := by decide +kernel
      exact hextra u hu ▸ hchannel
  -- an entry that names the instruction is one of its relations, and the instruction a call
  have hentry : ∀ b ∈ turn.tables.callEntries turn.traced.slice, b.call = e.id →
      e.opcode = some "call" ∧ turn.tables.callRows e.id ≠ [] := by
    intro b hb hid
    obtain ⟨e', he', r, hrel, rfl⟩ := mem_callEntries.mp hb
    rw [callBoundary_call] at hid
    obtain ⟨hnode, hcall⟩ := List.mem_filter.mp he'
    obtain rfl : e' = e := List.inj_on_of_nodup_map hkeyed hnode he hid
    exact ⟨of_decide_eq_true hcall,
      List.ne_nil_of_mem ((callRelations_perm turn.tables e'.id).mem_iff.mp hrel)⟩
  constructor
  · intro hrep
    by_cases hrows : turn.tables.callRows e.id = []
    · rcases hrep.indirect hrows with ⟨entries, hsome, b, hb, hid, _⟩ | ⟨u, hu, hmention⟩
      · obtain rfl := Option.some.inj (hentries.symm.trans hsome)
        exact hentry b hb hid
      · exact absurd hmention (hsilent u hu)
    · obtain ⟨entries, hsome, hperm⟩ := hrep.direct hrows
      obtain rfl := Option.some.inj (hentries.symm.trans hsome)
      obtain ⟨r, rows, hcons⟩ := List.exists_cons_of_ne_nil hrows
      have hb : turn.tables.callBoundary e.id r ∈ (turn.tables.callEntries turn.traced.slice).filter
          (·.call = e.id) := by
        rw [hperm.mem_iff, hcons]
        exact List.mem_cons_self
      obtain ⟨hb, hid⟩ := List.mem_filter.mp hb
      exact hentry _ hb (of_decide_eq_true hid)
  · rintro ⟨hcall, hrows⟩
    refine ⟨fun _ => ⟨_, hentries, ?_⟩, fun hnil => absurd hnil hrows⟩
    rw [callEntries_filter hkeyed he hcall]
    exact (callRelations_perm turn.tables e.id).map _

end Reports

/-! ## 8. A function that returns the sum of an indirect and a direct call -/

namespace DroppedCalls

/-- `%v = call %p()`, `%w = call @g()`, `%s = add %v, %w`, `ret %s`. -/
def main : Function :=
  { Collision.function "main" with
    arguments := [⟨"p", "ptr", "ptr %p"⟩]
    blocks :=
      [{ name := "entry"
         body :=
          [{ Collision.instruction "call" with operands := [.argument 0], call := some .indirect },
            { Collision.instruction "call" with
              operands := [.function 1], call := some (.function 1) },
            { Collision.instruction "add" with operands := [.instruction 0, .instruction 1] }]
         terminator := { Collision.instruction "ret" with operands := [.instruction 2] }
         terminatorKind := .other
         successors := [] }]
    successors_lt := by decide }

/-- `g` is declared only. -/
def module : Module :=
  { Collision.module with
    functions := [main, { Collision.function "g" with blocks := [], successors_lt := by decide }] }

def adapter : Adapter :=
  ⟨fun _ => .ok (catalog module), fun _ key => .ok (functionGraph (fun _ => Collision.tree) module key)⟩

/-- The module catalogued. -/
def catalogued : Database :=
  (refreshCatalog Sample.environment adapter.catalog ⟨Sample.claimDraw "c" "c" 1, 2, 2⟩
    Sample.artifact .catalog Sample.database).1

/-- `trace-return f0`. -/
def query : Query := .traceReturn Collision.f0 "all" 100 12 "summary" []

def draw (_ _ : Nat) : MaterializeDraw := Collision.draw "a"

def call : Database × Except Thrown Response :=
  query.perform Sample.environment adapter.functionGraph draw catalogued

def turns : List Turn := query.turns Sample.environment adapter.functionGraph draw catalogued

/-- The instruction `i` of `main`. -/
def instruction (i : Nat) : String :=
  entityId Sample.artifact ("inst:f0:" ++ toString i)

/-- An answer without an unknown about calls. -/
def silent : Except Thrown Response → Bool
  | .ok (.trace out) => out.unknowns.all fun u => ¬ u.MentionsCalls
  | _ => false

/-- A turn visits a call, and says nothing of it. -/
def dropped (turn : Turn) (e : Entity) : Bool :=
  e.opcode = some "call" && (turn.tables.callRows e.id).isEmpty &&
    (turn.traced.site.callBoundaries.getD []).all (·.call ≠ e.id)

/-- A turn visits a call of the module. -/
def direct (turn : Turn) (e : Entity) : Bool :=
  e.opcode = some "call" && !(turn.tables.callRows e.id).isEmpty

end DroppedCalls

open DroppedCalls in
/-- **The indirect call is dropped**: it is a node of the slice, and neither a boundary nor an
    unknown. -/
theorem trace_drops_calls :
    ∃ db' out, call = (db', .ok (.trace out)) ∧
      ∃ turn ∈ turns, ∃ e ∈ turn.traced.slice.nodes, e.CallLike ∧
        ¬ CallReported turn.tables turn.traced.site out.unknowns e := by
  have hsilent : silent call.2 = true := by decide +kernel
  have hturn : turns.any (fun turn => turn.traced.slice.nodes.any (dropped turn)) = true := by
    decide +kernel
  generalize call = answer at hsilent ⊢
  obtain ⟨db', e | out⟩ := answer
  · cases hsilent
  · cases out with
    | trace out =>
      obtain ⟨turn, hmem, hany⟩ := List.any_eq_true.mp hturn
      obtain ⟨e, he, hdropped⟩ := List.any_eq_true.mp hany
      unfold dropped at hdropped
      simp only [Bool.and_eq_true, decide_eq_true_eq, List.isEmpty_iff, List.all_eq_true]
        at hdropped
      obtain ⟨⟨hcall, hrows⟩, hentries⟩ := hdropped
      refine ⟨db', out, rfl, turn, hmem, e, he, .inl hcall, fun hrep => ?_⟩
      rcases hrep.indirect hrows with ⟨entries, hsome, b, hb, hid, _⟩ | ⟨u, hu, hmention⟩
      · rw [hsome] at hentries
        exact hentries b hb hid
      · exact of_decide_eq_true (List.all_eq_true.mp hsilent u hu) hmention
    | _ => cases hsilent

open DroppedCalls in
/-- The direct call of the same trace is reported. -/
theorem trace_reports_calls_direct :
    ∃ db' out, call = (db', .ok (.trace out)) ∧
      ∃ turn ∈ turns, ∃ e ∈ turn.traced.slice.nodes,
        CallReported turn.tables turn.traced.site out.unknowns e := by
  have hsilent : silent call.2 = true := by decide +kernel
  have hturn : turns.any (fun turn => turn.traced.slice.nodes.any (direct turn)) = true := by
    decide +kernel
  generalize h : call = answer at hsilent ⊢
  obtain ⟨db', e | out⟩ := answer
  · cases hsilent
  · cases out with
    | trace out =>
      obtain ⟨turn, hmem, hany⟩ := List.any_eq_true.mp hturn
      obtain ⟨e, he, hdirect⟩ := List.any_eq_true.mp hany
      unfold direct at hdirect
      simp only [Bool.and_eq_true, decide_eq_true_eq, Bool.not_eq_true', List.isEmpty_eq_false_iff]
        at hdirect
      exact ⟨db', out, rfl, turn, hmem, e, he,
        ((trace_reports_calls h).2 turn hmem e he (.inl hdirect.1)).mpr hdirect⟩
    | _ => cases hsilent

end Irez
