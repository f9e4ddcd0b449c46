/-
  File:      Irez/Evidence.lean
  Subject:   The rows behind an answer and the runs it names (service.cpp 126-137, 1301-1362,
             1415-1516, 1844-2088).

  A query collects the runs of the rows it shows by hand; some rows are read on the side. All
  rows of one function carry the run of its last analysis, so a run is missing only where a
  row is read on the side and no other row of its function is collected.

  * `Query.reads` -- the runs of the rows each query reads for its result;
  * `Contents.Shows.run_of_owned` -- one function, one run;
  * `Search.Sound.selected_ne_nil` -- a slice with room for a second node selects an edge;
  * `Tables.Settled` -- after the first materialization on demand a trace changes nothing;
  * `evidence_closed` -- every run is named where the query is `Query.Covered`;
  * `Uncollected` -- a return traced with room for one node.
-/
import Irez.CallReports
import Irez.Uses

open Irez.Basis

namespace Irez

/-! ## 1. Lists of evidence -/

section Lists

theorem evidenceRefs_head (artifactId : String) (runs : List (Option String)) :
    (evidenceRefs artifactId runs).head? = some artifactId := rfl

theorem mem_evidenceRefs {artifactId run : String} {runs : List (Option String)}
    (h : some run ∈ runs) (hne : run ≠ "") : run ∈ evidenceRefs artifactId runs := by
  refine List.mem_cons_of_mem _ (mem_sortedUnique.mpr (List.mem_filterMap.mpr ⟨_, h, ?_⟩))
  simp [hne]

theorem evidenceRefs_nodup {artifactId : String} {runs : List (Option String)}
    (h : some artifactId ∉ runs) : (evidenceRefs artifactId runs).Nodup := by
  refine List.nodup_cons.mpr ⟨fun hm => h ?_, List.nodup_dedup _⟩
  obtain ⟨run, hrun, hsome⟩ := List.mem_filterMap.mp (mem_sortedUnique.mp hm)
  obtain rfl := (Option.filter_eq_some_iff.mp hsome).1
  exact hrun

theorem firstOccurrences_eq {α : Type} [DecidableEq α] (values : List α) :
    firstOccurrences values = firsts values := by
  have key : ∀ (values kept : List α),
      values.foldl (fun kept value => if value ∈ kept then kept else kept ++ [value]) kept =
        kept ++ absorb kept values := by
    intro values
    induction values with
    | nil => exact fun kept => (List.append_nil kept).symm
    | cons v vs ih =>
      intro kept
      rw [List.foldl_cons]
      by_cases hv : v ∈ kept
      · rw [if_pos hv, ih, absorb_cons_of_mem hv]
      · rw [if_neg hv, ih, absorb_cons_of_not_mem hv, List.append_assoc]
        rfl
  exact key values []

theorem mem_firstOccurrences {α : Type} [DecidableEq α] {values : List α} {v : α} :
    v ∈ firstOccurrences values ↔ v ∈ values := by
  rw [firstOccurrences_eq]
  exact mem_firsts

theorem firstOccurrences_nodup {α : Type} [DecidableEq α] (values : List α) :
    (firstOccurrences values).Nodup := by
  rw [firstOccurrences_eq]
  exact firsts_nodup values

theorem firstOccurrences_head {α : Type} [DecidableEq α] {v : α} {values : List α}
    (h : values.head? = some v) : (firstOccurrences values).head? = some v := by
  rw [firstOccurrences_eq]
  cases values with
  | nil => cases h
  | cons w ws =>
    cases h
    rfl

end Lists

/-! ## 2. Names of runs and artifacts -/

section Names

variable {C : Contents} {db : Database}

/-- Every run bears the name of a run. -/
def Tables.RunsNamed (t : Tables) : Prop := ∀ id ∈ t.runIds, ∃ u, id = "run:" ++ u

theorem Tables.RunsNamed.effect {t : Tables} (h : t.RunsNamed) {s : Statement} (hs : s.Named) :
    (s.effect t).RunsNamed := by
  cases s with
  | insertRun row =>
    intro id hid
    have hid : id ∈ (t.runs ++ [row]).map Run.id := hid
    rw [List.map_append] at hid
    rcases List.mem_append.mp hid with hid | hid
    · exact h id hid
    · rw [List.mem_singleton.mp hid]
      exact hs
  | endRun id status endedAt error =>
    have hids : (updateWhere (·.id = id) (Run.ended status endedAt error) t.runs).map Run.id =
        t.runs.map Run.id := map_key_updateWhere (g := Run.ended status endedAt error) (fun _ => rfl) _
    intro id' hid
    have hid : id' ∈ (updateWhere (·.id = id) (Run.ended status endedAt error) t.runs).map Run.id :=
      hid
    rw [hids] at hid
    exact h id' hid
  | _ => exact h

theorem History.runsNamed (h : History C db) : db.RunsNamed := by
  obtain ⟨db₀, h₀, hrun⟩ := h
  refine History.keeps (P := Tables.RunsNamed) (fun s hs t ht => ht.effect hs) hrun fun id hid => ?_
  have hnil : db₀.runIds = [] := congrArg (List.map Run.id) h₀.runs
  rw [hnil] at hid
  exact absurd hid List.not_mem_nil

/-- A run is no artifact, and its name is not empty. -/
theorem Tables.RunsNamed.ne {t : Tables} (h : t.RunsNamed) {run : String}
    (hrun : Refers (some run) t.runIds) :
    run ≠ "" ∧ ∀ {T : Territory} {e : Entity}, Sound T t → e ∈ t.entities → run ≠ e.artifactId := by
  obtain ⟨u, rfl⟩ := h run (refers_some.mp hrun)
  refine ⟨fun he => ?_, fun hs hm he => ?_⟩
  · have hc := congrArg String.toList he
    rw [String.toList_append] at hc
    cases hc
  · obtain ⟨a, ha, haid, _⟩ := hs.entities _ hm
    rw [← haid, (hs.artifacts a ha).id] at he
    have hc := congrArg String.toList he
    rw [String.toList_append, String.toList_append] at hc
    cases hc

end Names

/-! ## 3. The rows a query reads -/

/-- The search of a slice. -/
def sliceSearch (t : Tables) (handle direction : String) (relations : List String)
    (budgetNodes budgetDepth : Int) : Option Search :=
  (t.entity handle).bind fun target =>
    (Search.initial handle).run (t.adjacency target.scope (traversedKinds t target.scope
      (requestedKinds relations)) direction) (Relation.nxt direction) budgetNodes budgetDepth t.turns

/-- The edges in the result of a slice. -/
def sliceRows (t : Tables) (handle direction : String) (relations : List String)
    (budgetNodes budgetDepth : Int) : List Relation :=
  (sliceSearch t handle direction relations budgetNodes budgetDepth).elim [] (·.selected)

/-- The edges at the nodes of an operand slice, and so its boundaries. -/
def scannedRows (t : Tables) (handle : String) (budgetNodes budgetDepth : Int) : List Relation :=
  (sliceSearch t handle "backward" ["operand"] budgetNodes budgetDepth).elim [] fun s =>
    (t.entity handle).elim [] fun target => s.seen.flatMap (t.adjacency target.scope
      (traversedKinds t target.scope (requestedKinds ["operand"])) "backward")

def showReads (t : Tables) (handle view : String) : List (Option String) :=
  (t.entity handle).elim [] fun entity =>
    if entity.kind ≠ "function" || view = "exact" then
      (t.showRelations handle).map (·.analysisRunId)
    else if view = "summary" then
      (t.relationsOf handle).map (·.analysisRunId) ++
        (t.summaryLocations handle).map (·.analysisRunId)
    else []

/-- The edges counted and the operand read for the predicate of a terminator. -/
def Tables.predicateReads (t : Tables) (terminator : String) : List Relation :=
  (t.relations.filter fun r => r.srcId = terminator && r.kind = "llvm.cfg-successor") ++
    (t.predicateRow terminator).toList

def guardsReads (t : Tables) (handle : String) (budget : Int) : List (Option String) :=
  (t.entity handle).elim [] fun target =>
    (visible budget (t.guardRows target handle budget)).flatMap fun r =>
      (r :: t.predicateReads (guardTerminator (guardsExact t target) r)).map (·.analysisRunId)

/-- The call row that `expand` follows or reports. -/
def expandReads (t : Tables) (handle : String) : List (Option String) :=
  (t.entity handle).elim [] fun entity =>
    if entity.kind = "function" then [] else (t.callRow handle).toList.map (·.analysisRunId)

/-- The rows of a site: its locations, its calls, the edges of its slice and the operands of
    its sink. -/
def Turn.reads (kind : SinkKind) (budgetNodes budgetDepth : Int) (turn : Turn) :
    List (Option String) :=
  (turn.tables.locations turn.sink.id).map (·.analysisRunId) ++
    (turn.tables.tracedCalls turn.traced.slice).map (·.2.analysisRunId) ++
    (scannedRows turn.sliced turn.sink.id budgetNodes budgetDepth).map (·.analysisRunId) ++
    ((turn.tables.sinkOperand turn.sink.id 0).toList ++
      match kind with
      | .ret => []
      | .store => (turn.tables.sinkOperand turn.sink.id 1).toList).map (·.analysisRunId)

/-- **The runs of the rows that a query reads for its result**, each from the tables it reads. -/
def Query.reads (env : Environment) (graph : String → String → Outcome)
    (draw : Nat → Nat → MaterializeDraw) (q : Query) (db : Database) : List (Option String) :=
  let t := (ensureMaterialized env graph (draw 0 0) q.handle db).1.toTables
  match q with
  | .view handle name _ _ => showReads t handle name
  | .source handle => (t.locations handle).map (·.analysisRunId)
  | .uses handle budget => (visible budget (t.useRows handle budget)).map (·.analysisRunId)
  | .slice handle direction relations budgetNodes budgetDepth =>
    (sliceRows t handle direction relations budgetNodes budgetDepth).map (·.analysisRunId)
  | .graph handle direction budget _ =>
    (sliceRows t handle direction ["operand"] budget 12).map (·.analysisRunId)
  | .guards handle budget => guardsReads t handle budget
  | .expand handle => expandReads db.toTables handle
  | .context handle budget =>
    let db₁ := (showQuery env graph (draw 0 0) handle "summary" none 100 db).1
    let db₂ := (sourceQuery env graph (draw 0 1) handle db₁).1
    let db₃ := (graphQuery env graph (draw 0 2) handle "backward" budget "json" db₂).1
    showReads db₁.toTables handle "summary" ++
      (db₂.locations handle).map (·.analysisRunId) ++
      (sliceRows db₃.toTables handle "backward" ["operand"] budget 12).map (·.analysisRunId)
  | .traceReturn _ _ budgetNodes budgetDepth _ _ =>
    (q.turns env graph draw db).flatMap (Turn.reads .ret budgetNodes budgetDepth)
  | .traceStores _ budgetNodes budgetDepth _ _ =>
    (q.turns env graph draw db).flatMap (Turn.reads .store budgetNodes budgetDepth)

/-! ## 4. One function, one run -/

section Runs

variable {C : Contents} {t : Tables} {a : Artifact} {K : Nat} {F : Function} {p : Publish}

/-- The relations of a function that is shown carry one run. -/
theorem Contents.Shows.run_of_owned (h : C.Shows t a K F p) {r : Relation} (hr : r ∈ t.relations)
    (ho : r.functionId = some p.target.handle) : r.analysisRunId = some p.run := by
  have hm : r ∈ t.relationsOf p.target.handle := List.mem_filter.mpr ⟨hr, decide_eq_true ho⟩
  rw [h.snapshot.relations] at hm
  obtain ⟨q, _, rfl⟩ := List.mem_map.mp hm
  rfl

/-- What leaves an entity inside the function belongs to the function. -/
theorem Contents.Shows.function_of_source (h : C.Shows t a K F p) (hs : Sound .scoped t) {x : Entity}
    (hx : x ∈ t.entities) (ho : x.functionId = some p.target.handle) {r : Relation}
    (hr : r ∈ t.relations) (hsrc : r.srcId = x.id) : r.functionId = some p.target.handle := by
  obtain ⟨f, hf, hown⟩ := hs.relations r hr
  rw [hf, hown x hx (.inl hsrc.symm) _ ho]

/-- The locations of an entity inside the function carry the same run. -/
theorem Contents.Shows.run_of_location (h : C.Shows t a K F p) {x : Entity} (hx : x ∈ t.entities)
    (ho : x.functionId = some p.target.handle) {s : SourceLocation} (hs : s ∈ t.sourceLocations)
    (hid : s.entityId = x.id) : s.analysisRunId = some p.run := by
  have howned : s.entityId ∈ t.owned p.target.handle :=
    List.mem_map.mpr ⟨x, List.mem_filter.mpr ⟨hx, decide_eq_true ho⟩, hid.symm⟩
  have hm : s ∈ t.sourcesOf p.target.handle := List.mem_filter.mpr ⟨hs, decide_eq_true howned⟩
  rw [h.snapshot.sources] at hm
  obtain ⟨q, _, rfl⟩ := List.mem_map.mp hm
  rfl

/-- An entity with an owner lies in a function that is shown. -/
theorem Conforms.shown_of_entity (h : Conforms C t) (hu : C.Unambiguous) {x : Entity} {f : String}
    (hx : x ∈ t.entities) (ho : x.functionId = some f) :
    ∃ a K F p, C.Shows t a K F p ∧ p.target.handle = f ∧
      ∃ e ∈ p.entities, e.interior = true ∧ x = p.ownedRow e := by
  obtain ⟨a, K, F, p, hp, rfl⟩ := h.shown_of_owner hu fun hbare => hbare.entities x hx ho
  exact ⟨a, K, F, p, hp, rfl, (hp.snapshot.entities x).mp ⟨hx, ho⟩⟩

end Runs

/-! ## 5. Slices -/

section Slices

variable {t : Tables} {handle direction : String} {relations : List String}
  {budgetNodes budgetDepth : Int} {out : SliceResponse}

/-- A slice names the runs of its edges. -/
theorem readSliceAll_rows
    (h : readSliceAll handle direction relations budgetNodes budgetDepth t = .ok out) :
    ∃ target s, t.entity handle = some target ∧
      sliceSearch t handle direction relations budgetNodes budgetDepth = some s ∧
      Search.Sound (t.adjacency target.scope (traversedKinds t target.scope
        (requestedKinds relations)) direction) (Relation.nxt direction) budgetNodes budgetDepth
        handle s ∧ s.queue = [] ∧
      out.evidence = evidenceRefs target.artifactId
        ((sliceRows t handle direction relations budgetNodes budgetDepth).map (·.analysisRunId)) := by
  obtain ⟨target, inv, s, htarget, hrun, hsound, hqueue, rfl⟩ := readSliceAll_ok h
  have hsearch : sliceSearch t handle direction relations budgetNodes budgetDepth = some s := by
    unfold sliceSearch
    rw [htarget]
    exact hrun
  refine ⟨target, s, htarget, hsearch, hsound, hqueue, ?_⟩
  unfold sliceRows
  rw [hsearch]
  rfl

/-- **With room for a second node a slice selects an edge**, if one leaves its target. -/
theorem Search.Sound.selected_ne_nil {adjacency : String → List Relation} {nxt : Relation → String}
    {s : Search} (h : Search.Sound adjacency nxt budgetNodes budgetDepth handle s)
    (hq : s.queue = []) (hn : 1 < budgetNodes) (hd : 0 < budgetDepth)
    (hadj : adjacency handle ≠ []) : s.selected ≠ [] := by
  have hseen : handle ∈ s.seen := h.seen_eq_known hq ▸ h.start_mem_known
  -- an edge of the target leads to a visited node
  have hnext : ∃ e ∈ adjacency handle, nxt e ∈ s.seen := by
    by_cases hself : ∃ e ∈ adjacency handle, nxt e = handle
    · obtain ⟨e, he, hid⟩ := hself
      exact ⟨e, he, hid ▸ hseen⟩
    · obtain ⟨e, he⟩ := List.exists_mem_of_ne_nil _ hadj
      have hfresh : nxt e ∈ absorb [handle] (Search.successors adjacency nxt handle) :=
        mem_absorb.mpr ⟨List.mem_map_of_mem he, fun hm => hself ⟨e, he, List.mem_singleton.mp hm⟩⟩
      obtain ⟨v, vs, hv⟩ := List.exists_cons_of_ne_nil (List.ne_nil_of_mem hfresh)
      have hone : order (Search.successors adjacency nxt) handle 1 = handle :: v :: vs := by
        show [handle] ++ absorb [handle] ([handle].flatMap _) = _
        rw [List.flatMap_singleton, hv]
        rfl
      have hprefix : handle :: v :: vs <+:
          order (Search.successors adjacency nxt) handle budgetDepth.toNat := by
        rw [← hone]
        exact order_isPrefix (by omega)
      obtain ⟨rest, hrest⟩ := hprefix
      have hvs : v ∈ s.seen := by
        rw [h.seen_eq hq le_rfl, ← hrest]
        have htwo : 2 ≤ (max 1 (min budgetNodes
            ((handle :: v :: vs ++ rest).length : Int))).toNat := by
          simp only [List.length_append, List.length_cons]
          omega
        obtain ⟨n, hn⟩ := Nat.exists_eq_add_of_le' htwo
        rw [hn]
        simp
      have hmem : v ∈ Search.successors adjacency nxt handle := by
        have hvm : v ∈ absorb [handle] (Search.successors adjacency nxt handle) :=
          hv ▸ List.mem_cons_self
        exact (mem_absorb.mp hvm).1
      obtain ⟨e', he', rfl⟩ := List.mem_map.mp hmem
      exact ⟨e', he', hvs⟩
  obtain ⟨e, he, hnxt⟩ := hnext
  have hsel : e ∈ s.selected := by
    rw [h.selected_eq, ← h.seen_eq_known hq]
    exact List.mem_filter.mpr ⟨List.mem_flatMap.mpr ⟨handle, hseen, he⟩, decide_eq_true hnxt⟩
  exact List.ne_nil_of_mem hsel

/-- A slice that nothing leaves visits its target only. -/
theorem Search.Sound.seen_eq_start {adjacency : String → List Relation} {nxt : Relation → String}
    {s : Search} (h : Search.Sound adjacency nxt budgetNodes budgetDepth handle s)
    (hq : s.queue = []) (hadj : adjacency handle = []) : ∀ v ∈ s.seen, v = handle := by
  have hwithin : ∀ {k : Nat} {v : String}, Within (Search.successors adjacency nxt) handle k v →
      v = handle := by
    intro k v hv
    induction hv with
    | start => rfl
    | @step _ u w _ hw ih =>
      have hnil : Search.successors adjacency nxt u = [] := by
        rw [ih]
        exact congrArg (List.map nxt) hadj
      rw [hnil] at hw
      exact absurd hw List.not_mem_nil
  exact fun v hv => hwithin (mem_order.mp (h.seen_subset_order hq hv))

end Slices

/-! ## 6. Rows read on the side -/

namespace Selected

variable {S : Selected} {T : PostDominatorTree}

/-- A control dependence leads to an instruction. -/
theorem guard_dst {q : RelationRecord} (hq : q ∈ relationRecords (S.graph T).records)
    (hk : q.kind = "llvm.control-dependence") : ScopedTo (Irez.functionKey S.ordinal) q.dst := by
  rw [graph_relations] at hq
  rcases List.mem_append.mp hq with hq | hq
  · exfalso
    have hcontains : ("llvm.contains" : String) ≠ "llvm.control-dependence" := by decide
    have hsuccessor : ("llvm.cfg-successor" : String) ≠ "llvm.control-dependence" := by decide
    have hvalue : "llvm.control-dependence" ∉ structuralKinds := by decide
    rcases List.mem_append.mp hq with hq | hq
    · obtain ⟨_, _, rfl⟩ := List.mem_map.mp hq
      exact hcontains hk
    · obtain ⟨u, hu, hq⟩ := List.mem_flatMap.mp hq
      rcases List.mem_append.mp hq with hq | hq
      · rw [List.mem_singleton.mp hq] at hk
        exact hcontains hk
      · obtain ⟨⟨⟨I, i⟩, successors⟩, hI, hq⟩ := List.mem_flatMap.mp hq
        have hm : ((I, i), successors) ∈ S.numberedInstructions := List.mem_flatMap.mpr ⟨u, hu, hI⟩
        rcases mem_instructionRelations hq with rfl | ⟨_, hkinds, _⟩ | hq
        · exact hcontains hk
        · exact hvalue (hk ▸ hkinds)
        · exact hsuccessor ((successors_of_mem hm hq).1.symm.trans hk)
  · rw [controlRelations, mem_relationRecords] at hq
    obtain ⟨x, s, z, y, B, _, _, _, he⟩ := mem_controlDependence.mp hq
    cases he
    exact S.instructionKey_scoped _

/-- A CFG edge leaves an instruction. -/
theorem successor_src {q : RelationRecord} (hq : q ∈ relationRecords (S.graph T).records)
    (hk : q.kind = "llvm.cfg-successor") : ScopedTo (Irez.functionKey S.ordinal) q.src := by
  obtain ⟨Iis, hI, hown⟩ := mem_ownRelations hq (by rw [hk]; decide) (by rw [hk]; decide)
  rw [ownRelations_src hI hown]
  exact S.instructionKey_scoped _

end Selected

section Side

variable {C : Contents} {t : Tables} {a : Artifact} {K : Nat} {F : Function} {p : Publish}

/-- A key of a function's stream that carries the function's key is an entity it owns. -/
theorem Contents.Shows.owned_of_scoped (h : C.Shows t a K F p) {l : String}
    (hl : Selected.Declared ⟨C.module a.id, K, F⟩ (C.postDominators F) l)
    (hs : ScopedTo (functionKey K) l) :
    ∃ x ∈ t.entities, x.id = entityId a l ∧ x.functionId = some p.target.handle := by
  rcases hl with hm | ⟨f, _, rfl⟩
  · obtain ⟨e, he, rfl⟩ := List.mem_map.mp hm
    have hin : .entity e ∈ functionGraph C.postDominators (C.module a.id) (functionKey K) := by
      rw [functionGraph_eq h.select]
      exact mem_entityRecords.mp he
    have hkinds := (functionGraph_scoped h.select hin).interior_iff.mpr hs
    have hi : e.interior = true := by
      unfold EntityRecord.interior
      simpa using hkinds
    rw [← h.entities_eq] at he
    obtain ⟨hmem, ho⟩ := (h.snapshot.entities (p.ownedRow e)).mpr ⟨e, he, hi, rfl⟩
    exact ⟨_, hmem, h.entityId_eq e.localKey, ho⟩
  · exact absurd rfl hs.ne_functionLocal

/-- **The rows read for a predicate carry the run of the row that names the terminator.** -/
theorem Conforms.run_of_predicate (h : Conforms C t) (hu : C.Unambiguous) {exact : Bool}
    {block : String} {r r' : Relation} (hr : r ∈ t.guardRelations exact block)
    (hr' : r' ∈ t.predicateReads (guardTerminator exact r)) : r'.analysisRunId = r.analysisRunId := by
  obtain ⟨hmem, hcond⟩ := List.mem_filter.mp ((List.perm_insertionSort _ _).mem_iff.mp hr)
  rw [Bool.and_eq_true] at hcond
  obtain ⟨a, K, F, p, hp, q, hq, rfl⟩ := h.relation_shown hu hmem
  rw [hp.relations_eq] at hq
  obtain ⟨_, hsrc, hdst⟩ := Selected.relation_declared (S := ⟨C.module a.id, K, F⟩) (C.graphs F) hq
  -- the terminator is an entity of the function
  obtain ⟨x, hx, hid, ho⟩ : ∃ x ∈ t.entities,
      x.id = guardTerminator exact (p.snapshotRelation q) ∧ x.functionId = some p.target.handle := by
    cases exact with
    | true =>
      have hkind : q.kind = "llvm.control-dependence" := by
        have hk := hcond.1
        rw [if_pos rfl, Bool.and_eq_true] at hk
        exact of_decide_eq_true hk.1
      obtain ⟨x, hx, hid, ho⟩ := hp.owned_of_scoped hdst
        (Selected.guard_dst (S := ⟨C.module a.id, K, F⟩) hq hkind)
      exact ⟨x, hx, hid.trans (hp.dstId q).symm, ho⟩
    | false =>
      have hkind : q.kind = "llvm.cfg-successor" := by
        have hk := hcond.1
        rw [if_neg Bool.false_ne_true, Bool.and_eq_true] at hk
        exact of_decide_eq_true hk.1
      obtain ⟨x, hx, hid, ho⟩ := hp.owned_of_scoped hsrc
        (Selected.successor_src (S := ⟨C.module a.id, K, F⟩) hq hkind)
      exact ⟨x, hx, hid.trans (hp.srcId q).symm, ho⟩
  have hr'mem : r' ∈ t.relations ∧ r'.srcId = guardTerminator exact (p.snapshotRelation q) := by
    rcases List.mem_append.mp hr' with hr' | hr'
    · obtain ⟨hm, hc⟩ := List.mem_filter.mp hr'
      rw [Bool.and_eq_true] at hc
      exact ⟨hm, of_decide_eq_true hc.1⟩
    · have hfind := Option.mem_toList.mp hr'
      unfold Tables.predicateRow at hfind
      split at hfind
      · have hc := List.find?_some hfind
        simp only [Bool.and_eq_true, decide_eq_true_eq] at hc
        exact ⟨List.mem_of_find?_eq_some hfind, hc.1.1⟩
      · cases hfind
  have hf := hp.function_of_source h.sound hx ho hr'mem.1 (hr'mem.2.trans hid.symm)
  rw [hp.run_of_owned hr'mem.1 hf]
  rfl

/-- A function with a body has relations. -/
theorem Contents.Shows.relations_ne_nil (h : C.Shows t a K F p) : p.relations ≠ [] := by
  rw [h.relations_eq, Selected.graph_relations]
  have hne : F.blocks ≠ [] := by
    intro hnil
    have hd := h.defined
    unfold Function.isDeclaration at hd
    rw [hnil] at hd
    cases hd
  have hlt : 0 < (Selected.mk (C.module a.id) K F).function.blocks.length :=
    List.length_pos_of_ne_nil hne
  refine List.append_ne_nil_of_left_ne_nil (List.append_ne_nil_of_right_ne_nil _ ?_) _
  exact List.ne_nil_of_mem (List.mem_flatMap.mpr
    ⟨_, Selected.mem_numbered hlt, List.mem_append_left _ (List.mem_singleton.mpr rfl)⟩)

/-- **The locations of a summary carry the run of the function's relations.** -/
theorem Conforms.run_of_summary (h : Conforms C t) (hu : C.Unambiguous) {e : Entity}
    (he : e ∈ t.entities) (hk : e.kind = "function") (hc : t.Constraints) {s : SourceLocation}
    (hs : s ∈ t.summaryLocations e.id) : ∃ r ∈ t.relationsOf e.id, r.analysisRunId = s.analysisRunId := by
  obtain ⟨hmem, hcond⟩ := List.mem_filter.mp hs
  obtain ⟨x, hx, hor⟩ := (Option.any_eq_true _ _).mp hcond
  have hxm := mem_of_lookup hx
  have hxid : x.id = s.entityId := key_of_lookup hx
  rw [Bool.or_eq_true, decide_eq_true_eq, decide_eq_true_eq] at hor
  rcases hor with ho | hid
  · obtain ⟨a, K, F, p, hp, hhandle, _⟩ := h.shown_of_entity hu hxm ho
    obtain ⟨q, hq⟩ := List.exists_mem_of_ne_nil _ hp.relations_ne_nil
    refine ⟨p.snapshotRelation q, ?_, ?_⟩
    · rw [← hhandle, hp.snapshot.relations]
      exact List.mem_map_of_mem hq
    · rw [hp.run_of_location hxm (by rw [hhandle]; exact ho) hmem hxid.symm]
      rfl
  · -- a function has no location of its own
    exfalso
    obtain ⟨y, hy, hyid, hsome⟩ := h.sound.sources s hmem
    obtain rfl := List.inj_on_of_nodup_map hc.entityKey hy he (hyid.trans (hxid.symm.trans hid))
    obtain ⟨_, _, _, _, hh⟩ := h.functions y hy hk
    rw [hh.cols.2.2.2.2] at hsome
    cases hsome

end Side

/-! ## 7. Traces read one state -/

section Settled

variable {C : Contents} {db db' : Database} {env : Environment}
  {graph : String → String → Outcome} {f : String}

/-- A materialization on demand for the function does nothing. -/
def Tables.Settled (t : Tables) (f : String) : Prop :=
  (t.materialization f).any (·.status = .declarationOnly) = true ∨
    (t.materialization f).any (cacheCurrent t) = true

theorem Tables.Settled.ensure (h : db.Settled f) {d : MaterializeDraw} {handle : String} {e : Entity}
    (he : db.entity handle = some e) (hhome : e.home = some f) :
    ensureMaterialized env graph d handle db = (db, .ok ()) := by
  have hid : e.id = handle := key_of_lookup he
  unfold Entity.home at hhome
  rw [hid] at hhome
  rcases h with hdecl | hcur
  · simp only [ensureMaterialized, he, hhome, hdecl, if_true]
  · exact ensureMaterialized_of_current he hhome hcur

/-- **After a materialization on demand that ends well the function is settled.** -/
theorem Conforms.settled (h : Conforms C db.toTables) {d : MaterializeDraw} {e : Entity}
    (he : db.entity f = some e) (hk : e.kind = "function")
    (hens : ensureMaterialized env graph d f db = (db', .ok ())) :
    db'.Settled f := by
  by_cases hdecl : (db.materialization f).any (·.status = .declarationOnly) = true
  · have hnone : ensureMaterialized env graph d f db = (db, .ok ()) := by
      simp only [ensureMaterialized, he, hk, hdecl, if_true]
    rw [hnone] at hens
    obtain rfl := congrArg Prod.fst hens
    exact .inl hdecl
  by_cases hcur : (db.materialization f).any (cacheCurrent db.toTables) = true
  · rw [ensureMaterialized_of_current he (if_pos hk) hcur] at hens
    obtain rfl := congrArg Prod.fst hens
    exact .inr hcur
  -- the function is analysed, and so it is current
  have hdefined : db.Defined f := by
    have hid : e.id = f := key_of_lookup he
    obtain ⟨a, K, F, m, hh⟩ := h.functions e (mem_of_lookup he) hk
    obtain ⟨b, hb, hbid, hsha⟩ := hh.stores
    have hrow := h.materialization_eq db.constraints hh
    rw [hid] at hrow
    refine ⟨⟨e, b, functionKey K, he, hk, ?_, hh.cols.2.2.1, ?_⟩, m, hh.row, hh.handle.trans hid, ?_, ?_⟩
    · rw [hh.cols.2.1, ← hbid]
      exact lookup_self db.constraints.artifactKey hb
    · rw [hh.cols.2.2.1, hh.cols.1, entityId_congr hsha]
    · intro hstatus
      rw [hrow, Option.any_some] at hdecl
      exact hdecl (decide_eq_true hstatus)
    · exact fun m' hm' hid' => h.row_unique db.constraints hm' hh.row
        (hid'.trans (hid.symm.trans hh.handle.symm))
  unfold ensureMaterialized at hens
  simp only [he, hk, hdecl, hcur, if_true] at hens
  generalize hm : Irez.materialize env graph d f true db = call at hens
  obtain ⟨db₁, e₁ | response⟩ := call
  · cases hens
  · cases hens
    obtain ⟨_, _, _, hstays, _⟩ := materialize_current hdefined (materialize_run hm)
    exact .inr ((cacheCurrent_iff db'.constraints).mpr hstays.current)

theorem Tables.Settled.afterEnsure (h : db.Settled f) {α : Type} {d : MaterializeDraw}
    {handle : String} {e : Entity} {read : Tables → Except Thrown α} {result : Except Thrown α}
    (he : db.entity handle = some e) (hhome : e.home = some f)
    (hcall : Irez.afterEnsure env graph d handle read db = (db', result)) : db' = db := by
  have hfst : (Irez.afterEnsure env graph d handle read db).1 = _ := afterEnsure_fst
  rw [hcall, h.ensure he hhome] at hfst
  exact hfst

theorem Tables.Settled.traceSink (h : db.Settled f) {draw : Nat → MaterializeDraw}
    {req : TraceRequest} {sink : Entity} {result : Except Thrown Traced}
    (hsink : sink ∈ db.entities) (hhome : sink.home = some f)
    (hcall : Irez.traceSink env graph draw req sink db = (db', result)) : db' = db := by
  have hentity : db.entity sink.id = some sink := lookup_self db.constraints.entityKey hsink
  unfold Irez.traceSink at hcall
  split at hcall
  · rename_i h₁
    cases hcall
    exact h.afterEnsure hentity hhome h₁
  · rename_i db₁ traced h₁
    obtain rfl := h.afterEnsure hentity hhome h₁
    split at hcall
    · rename_i h₂
      cases hcall
      exact h.afterEnsure hentity hhome h₂
    · rename_i h₂
      cases hcall
      exact h.afterEnsure hentity hhome h₂

/-- **The turns of a trace of a settled function read one state.** -/
theorem Tables.Settled.turns (h : db.Settled f) {draw : Nat → Nat → MaterializeDraw}
    {req : TraceRequest} {i : Nat} {sinks : List Entity}
    (hs : ∀ x ∈ sinks, x ∈ db.entities ∧ x.home = some f) :
    ∀ turn ∈ traceTurns env graph draw req i sinks db,
      turn.sink ∈ sinks ∧ turn.sliced = db.toTables ∧ turn.tables = db.toTables := by
  induction sinks generalizing i with
  | nil => exact fun turn hm => absurd hm List.not_mem_nil
  | cons sink rest ih =>
    intro turn hm
    obtain ⟨hsink, hhome⟩ := hs sink List.mem_cons_self
    unfold traceTurns at hm
    split at hm
    · exact absurd hm List.not_mem_nil
    · rename_i db₁ traced hcall
      obtain rfl := h.traceSink hsink hhome hcall
      rcases List.mem_cons.mp hm with rfl | hm
      · rw [h.ensure (lookup_self db₁.constraints.entityKey hsink) hhome]
        exact ⟨List.mem_cons_self, rfl, rfl⟩
      · obtain ⟨hmem, hrest⟩ := ih (fun x hx => hs x (List.mem_cons_of_mem _ hx)) turn hm
        exact ⟨List.mem_cons_of_mem _ hmem, hrest⟩

/-- A loop that ends well has a turn for every sink. -/
theorem traceTurns_sinks {draw : Nat → Nat → MaterializeDraw} {req : TraceRequest} {i : Nat}
    {sinks : List Entity} {turns : List Traced}
    (h : traceSinks env graph draw req i sinks db = (db', .ok turns)) :
    (traceTurns env graph draw req i sinks db).map (·.sink) = sinks := by
  induction sinks generalizing i db turns with
  | nil => rfl
  | cons sink rest ih =>
    unfold traceSinks at h
    split at h
    · cases h
    · rename_i db₁ traced hsink
      split at h
      · cases h
      · rename_i db₂ more hmore
        cases h
        unfold traceTurns
        rw [hsink, List.map_cons, ih hmore]

/-- The loop of a trace that answers. -/
theorem runTrace_loop {draw : Nat → Nat → MaterializeDraw} {req : TraceRequest}
    {sinks : List Entity} {out : TraceEnvelope}
    (h : runTrace env graph draw req sinks db = (db', .ok out)) :
    ∃ turns, traceSinks env graph draw req 0 sinks db = (db', .ok turns) := by
  unfold runTrace at h
  split at h
  · cases h
  · rename_i db₁ turns hloop
    obtain ⟨rfl, _⟩ := Prod.mk.inj h
    exact ⟨turns, hloop⟩

/-- The loop over the sinks of a settled function changes nothing. -/
theorem Tables.Settled.traceSinks (h : db.Settled f) {draw : Nat → Nat → MaterializeDraw}
    {req : TraceRequest} {i : Nat} {sinks : List Entity} {result : Except Thrown (List Traced)}
    (hs : ∀ x ∈ sinks, x ∈ db.entities ∧ x.home = some f)
    (hcall : Irez.traceSinks env graph draw req i sinks db = (db', result)) : db' = db := by
  induction sinks generalizing i result with
  | nil =>
    cases hcall
    rfl
  | cons sink rest ih =>
    obtain ⟨hsink, hhome⟩ := hs sink List.mem_cons_self
    unfold Irez.traceSinks at hcall
    split at hcall
    · rename_i h₁
      cases hcall
      exact h.traceSink hsink hhome h₁
    · rename_i db₁ traced h₁
      obtain rfl := h.traceSink hsink hhome h₁
      have hrest := fun x hx => hs x (List.mem_cons_of_mem _ hx)
      split at hcall
      · rename_i h₂
        cases hcall
        exact ih hrest h₂
      · rename_i h₂
        cases hcall
        exact ih hrest h₂

/-! ## 8. The sinks of a trace -/

def SinkKind.opcode : SinkKind → String
  | .ret => "ret"
  | .store => "store"

/-- The trace that a query makes: its kind of sink, its selector and its budgets. -/
def Query.trace : Query → Option (SinkKind × String × Int × Int)
  | .traceReturn _ selector budgetNodes budgetDepth _ _ =>
    some (.ret, selector, budgetNodes, budgetDepth)
  | .traceStores _ budgetNodes budgetDepth _ _ => some (.store, "all", budgetNodes, budgetDepth)
  | _ => none

/-- The sinks that a trace chooses, in their order. -/
def Query.sinks (q : Query) (t : Tables) : List Entity :=
  match q with
  | .traceReturn handle selector _ _ _ _ =>
    match selectReturns t handle selector with
    | .ok returns => returns
    | .error _ => []
  | .traceStores handle _ _ _ _ => orderedByOrdinal (t.entitiesOf handle (·.opcode = some "store"))
  | _ => []

/-- What a trace that answers has done. -/
structure Query.Traces (env : Environment) (graph : String → String → Outcome)
    (draw : Nat → Nat → MaterializeDraw) (q : Query) (db db₁ db' : Database) (req : TraceRequest)
    (selector : String) (out : TraceEnvelope) : Prop where
  ensured : ensureMaterialized env graph (draw 0 0) q.handle db = (db₁, .ok ())
  function : db₁.function q.handle = some req.function
  trace : q.trace = some (req.sinkKind, selector, req.budgetNodes, req.budgetDepth)
  sections : ∀ name ∈ ["calls", "source", "boundaries"], name ∈ req.sections
  sinks : (q.turns env graph draw db).map (·.sink) = q.sinks db₁.toTables
  turns : q.turns env graph draw db =
    traceTurns env graph (fun i => draw (i + 1)) req 0 (q.sinks db₁.toTables) db₁
  loop : ∃ turns, traceSinks env graph (fun i => draw (i + 1)) req 0 (q.sinks db₁.toTables) db₁ =
    (db', .ok turns)
  mem_sinks : ∀ x, x ∈ q.sinks db₁.toTables ↔ x ∈ db₁.entities ∧ x.functionId = some q.handle ∧
    x.opcode = some req.sinkKind.opcode ∧ (selector = "all" ∨ x.id = selector)
  evidence : out.evidence = firstOccurrences
    (req.function.artifactId :: (q.turns env graph draw db).flatMap (·.traced.evidence))

theorem mem_entitiesOf {t : Tables} {f opcode : String} {x : Entity} :
    x ∈ orderedByOrdinal (t.entitiesOf f (·.opcode = some opcode)) ↔
      x ∈ t.entities ∧ x.functionId = some f ∧ x.opcode = some opcode := by
  unfold orderedByOrdinal Tables.entitiesOf
  rw [(List.perm_insertionSort _ _).mem_iff, List.mem_filter, Bool.and_eq_true, decide_eq_true_eq,
    decide_eq_true_eq]

theorem selectReturns_ok {t : Tables} (hc : t.Constraints) {handle selector : String}
    {returns : List Entity} (h : selectReturns t handle selector = .ok returns) (x : Entity) :
    x ∈ returns ↔ x ∈ t.entities ∧ x.functionId = some handle ∧ x.opcode = some "ret" ∧
      (selector = "all" ∨ x.id = selector) := by
  unfold selectReturns at h
  split at h
  · rename_i hall
    cases h
    rw [mem_entitiesOf]
    exact ⟨fun ⟨hm, ho, hop⟩ => ⟨hm, ho, hop, .inl hall⟩, fun ⟨hm, ho, hop, _⟩ => ⟨hm, ho, hop⟩⟩
  · rename_i hall
    split at h
    · rename_i selected hselected
      cases h
      obtain ⟨hrow, hcond⟩ := Option.filter_eq_some_iff.mp hselected
      rw [Bool.and_eq_true, decide_eq_true_eq, decide_eq_true_eq] at hcond
      rw [List.mem_singleton]
      constructor
      · rintro rfl
        exact ⟨mem_of_lookup hrow, hcond.1, hcond.2, .inr (key_of_lookup hrow)⟩
      · rintro ⟨hm, _, _, hsel⟩
        have hid := hsel.resolve_left hall
        rw [← hid] at hrow
        exact Option.some.inj ((lookup_self hc.entityKey hm).symm.trans hrow)
    · cases h

/-- A trace that answers. -/
theorem Query.perform_trace {draw : Nat → Nat → MaterializeDraw} {q : Query} {out : TraceEnvelope}
    (h : q.perform env graph draw db = (db', .ok (.trace out))) :
    ∃ db₁ req selector, q.Traces env graph draw db db₁ db' req selector out := by
  cases q with
  | traceReturn handle selector budgetNodes budgetDepth detail includes =>
    obtain ⟨a, ha, hout⟩ := respond_ok h
    cases hout
    unfold Irez.traceReturn at ha
    split at ha
    · cases ha
    · rename_i db₁ req returns extra h₁
      obtain ⟨hens, hread⟩ := afterEnsure_ok h₁
      have hturns : (Query.traceReturn handle selector budgetNodes budgetDepth detail
          includes).turns env graph draw db =
            traceTurns env graph (fun i => draw (i + 1)) req 0 returns db₁ := by
        simp only [Query.turns, h₁]
      split at ha
      · cases ha
      · rename_i db₂ env₂ hrun
        cases ha
        obtain ⟨req', hreq, hread⟩ := bind_eq_ok hread
        obtain ⟨returns', hreturns, hread⟩ := bind_eq_ok hread
        cases hread
        obtain ⟨function, hfunction, _, rfl⟩ := traceRequest_ok hreq
        obtain ⟨inv, rfl⟩ := runTrace_turns hrun
        have hsinks : (Query.traceReturn handle selector budgetNodes budgetDepth detail
            includes).sinks db₁.toTables = returns := by
          simp only [Query.sinks, hreturns]
        obtain ⟨turns, hloop⟩ := runTrace_loop hrun
        refine ⟨db₁, ⟨function, .ret, sortedUnique (detailSections detail ++ includes), detail,
          budgetNodes, budgetDepth⟩, selector, hens, hfunction, rfl, mem_sections, ?_, ?_, ⟨turns, ?_⟩,
          ?_, ?_⟩
        · rw [hturns, hsinks]
          exact traceTurns_sinks hloop
        · rw [hturns, hsinks]
        · rw [hsinks]
          exact hloop
        · rw [hsinks]
          exact selectReturns_ok db₁.constraints hreturns
        · rw [hturns, ← List.flatMap_map]
          rfl
  | traceStores handle budgetNodes budgetDepth detail includes =>
    obtain ⟨a, ha, hout⟩ := respond_ok h
    cases hout
    unfold Irez.traceStores at ha
    split at ha
    · cases ha
    · rename_i db₁ req stores h₁
      obtain ⟨hens, hread⟩ := afterEnsure_ok h₁
      have hturns : (Query.traceStores handle budgetNodes budgetDepth detail
          includes).turns env graph draw db =
            traceTurns env graph (fun i => draw (i + 1)) req 0 stores db₁ := by
        simp only [Query.turns, h₁]
      obtain ⟨req', hreq, hread⟩ := bind_eq_ok hread
      cases hread
      obtain ⟨function, hfunction, _, rfl⟩ := traceRequest_ok hreq
      obtain ⟨turns, hloop⟩ := runTrace_loop ha
      refine ⟨db₁, ⟨function, .store, sortedUnique (detailSections detail ++ includes), detail,
        budgetNodes, budgetDepth⟩, "all", hens, hfunction, rfl, mem_sections, ?_, hturns,
        ⟨turns, hloop⟩, fun x => ?_, ?_⟩
      · rw [hturns]
        exact traceTurns_sinks hloop
      · exact mem_entitiesOf.trans
          ⟨fun h => ⟨h.1, h.2.1, h.2.2, .inl rfl⟩, fun h => ⟨h.1, h.2.1, h.2.2.1⟩⟩
      · obtain ⟨inv, rfl⟩ := runTrace_turns ha
        rw [hturns, ← List.flatMap_map]
        rfl
  | _ =>
    obtain ⟨a, _, hout⟩ := respond_ok h
    cases hout

end Settled

/-! ## 9. Lists that are closed -/

/-- **Evidence that closes over the rows read**: it starts with the artifact, has no run twice,
    and names the run of every row. -/
structure Evidenced (artifactId : String) (reads : List (Option String)) (evidence : List String) :
    Prop where
  head : evidence.head? = some artifactId
  nodup : evidence.Nodup
  closed : ∀ run, some run ∈ reads → run ∈ evidence

section Evidenced

variable {C : Contents} {db db' : Database} {t : Tables}

/-- The rows of the tables refer to runs. -/
theorem Tables.Constraints.refers_run (hc : t.Constraints) {run : String}
    (h : (∃ r ∈ t.relations, r.analysisRunId = some run) ∨
      ∃ s ∈ t.sourceLocations, s.analysisRunId = some run) : Refers (some run) t.runIds := by
  rcases h with ⟨r, hr, hrun⟩ | ⟨s, hs, hrun⟩
  · exact hrun ▸ (hc.relationRefs r hr).2.2.2
  · exact hrun ▸ (hc.sourceRefs s hs).2.2

/-- The runs collected by a query make a list that closes over the rows read, where each row
    read shares its run with a row collected. -/
theorem Tables.RunsNamed.evidenced (hn : t.RunsNamed) (hs : Sound .scoped t) (hc : t.Constraints)
    {e : Entity} (he : e ∈ t.entities) {reads collected : List (Option String)}
    (hrows : ∀ run, some run ∈ collected → (∃ r ∈ t.relations, r.analysisRunId = some run) ∨
      ∃ s ∈ t.sourceLocations, s.analysisRunId = some run)
    (hreads : ∀ run, some run ∈ reads → some run ∈ collected) :
    Evidenced e.artifactId reads (evidenceRefs e.artifactId collected) where
  head := evidenceRefs_head _ _
  nodup := evidenceRefs_nodup fun hm => (hn.ne (hc.refers_run (hrows _ hm))).2 hs he rfl
  closed run hrun :=
    mem_evidenceRefs (hreads run hrun) (hn.ne (hc.refers_run (hrows run (hreads run hrun)))).1

/-- A handle names one artifact at all times. -/
theorem History.artifact_eq (h : History C db) (hu : C.Unambiguous)
    (hrun : Relation.ReflTransGen (Attempt C) db db') {handle : String} {e e' : Entity}
    (he : db.entity handle = some e) (he' : db'.entity handle = some e') :
    e'.artifactId = e.artifactId := by
  have hconf' := (h.tail hrun).conforms hu
  obtain ⟨a, ha, haid, hid, hplaced⟩ := (h.conforms hu).sound.entities e (mem_of_lookup he)
  obtain ⟨b, hb, hbid, hid', hplaced'⟩ := hconf'.sound.entities e' (mem_of_lookup he')
  have hstores : db'.Stores a := Tables.Stores.history (a := a) ⟨a, ha, rfl, rfl⟩ hrun
  have hsame : entityId b e'.localKey = entityId a e.localKey :=
    (hid'.symm.trans (key_of_lookup he')).trans ((hid.symm.trans (key_of_lookup he)).symm)
  obtain ⟨hart, _⟩ := hconf'.handle_inj db'.constraints ⟨b, hb, rfl, rfl⟩ hstores hplaced'.colon_mem
    hplaced.colon_mem hsame
  exact hbid.symm.trans (hart.trans haid)

end Evidenced

/-! ## 10. The queries that read one state -/

section One

variable {C : Contents} {t : Tables} {handle : String}

/-- What a read of one state answers with. -/
def Reads {ρ : Type} (t : Tables) (handle : String) (reads : List (Option String))
    (read : Except Thrown (Envelope ρ)) : Prop :=
  ∀ out, read = .ok out → ∃ e, t.entity handle = some e ∧ Evidenced e.artifactId reads out.evidence

theorem entityOrThrow_ok {e : Entity} (h : entityOrThrow t handle = .ok e) :
    t.entity handle = some e := by
  unfold entityOrThrow at h
  split at h
  · rename_i heq
    cases h
    exact heq
  · cases h

theorem Conforms.reads_show (h : Conforms C t) (hu : C.Unambiguous) (hn : t.RunsNamed)
    (hc : t.Constraints) {view : String} {kind : Option String} {budget : Int} :
    Reads t handle (showReads t handle view) (readShow handle view kind budget t) := by
  intro out hread
  unfold readShow at hread
  obtain ⟨e, hentity, hread⟩ := bind_eq_ok hread
  obtain ⟨_, _, hread⟩ := bind_eq_ok hread
  obtain ⟨_, _, hread⟩ := bind_eq_ok hread
  obtain ⟨_, _, hread⟩ := bind_eq_ok hread
  obtain ⟨_, _, hread⟩ := bind_eq_ok hread
  obtain ⟨body, hbody, hread⟩ := bind_eq_ok hread
  obtain ⟨inv, _, hread⟩ := bind_eq_ok hread
  cases hread
  have hentity := entityOrThrow_ok hentity
  have hid : e.id = handle := key_of_lookup hentity
  refine ⟨e, hentity, ?_⟩
  unfold showReads
  rw [hentity, Option.elim_some]
  unfold showBody at hbody
  by_cases hexact : (decide (e.kind ≠ "function") || decide (view = "exact")) = true
  · rw [if_pos hexact] at hbody ⊢
    cases hbody
    refine hn.evidenced h.sound hc (mem_of_lookup hentity) (fun run hrun => .inl ?_) fun run hrun => hrun
    obtain ⟨r, hr, hrun⟩ := List.mem_map.mp hrun
    exact ⟨r, (List.mem_filter.mp ((List.perm_insertionSort _ _).mem_iff.mp hr)).1, hrun⟩
  rw [if_neg hexact] at hbody ⊢
  rw [Bool.or_eq_true, not_or, decide_eq_true_eq, not_ne_iff] at hexact
  split at hbody
  · rename_i hsummary
    cases hbody
    rw [if_pos hsummary]
    refine hn.evidenced h.sound hc (mem_of_lookup hentity) (fun run hrun => .inl ?_) fun run hrun => ?_
    · obtain ⟨r, hr, hrun⟩ := List.mem_map.mp hrun
      exact ⟨r, (List.mem_filter.mp hr).1, hrun⟩
    · rcases List.mem_append.mp hrun with hrun | hrun
      · exact hrun
      · obtain ⟨s, hs, hrun⟩ := List.mem_map.mp hrun
        rw [← hid] at hs ⊢
        obtain ⟨r, hr, hsame⟩ := h.run_of_summary hu (mem_of_lookup hentity) hexact.1 hc hs
        exact List.mem_map.mpr ⟨r, hr, hsame.trans hrun⟩
  · rename_i hsummary
    rw [if_neg hsummary]
    unfold showChildren at hbody
    obtain ⟨_, _, hbody⟩ := bind_eq_ok hbody
    cases hbody
    exact hn.evidenced h.sound hc (mem_of_lookup hentity)
      (fun _ hrun => absurd hrun List.not_mem_nil) fun _ hrun => absurd hrun List.not_mem_nil

theorem Conforms.reads_source (h : Conforms C t) (hn : t.RunsNamed) (hc : t.Constraints) :
    Reads t handle ((t.locations handle).map (·.analysisRunId)) (readSource handle t) := by
  intro out hread
  unfold readSource at hread
  obtain ⟨e, hentity, hread⟩ := bind_eq_ok hread
  obtain ⟨inv, _, hread⟩ := bind_eq_ok hread
  cases hread
  have hentity := entityOrThrow_ok hentity
  refine ⟨e, hentity, hn.evidenced h.sound hc (mem_of_lookup hentity) (fun run hrun => .inr ?_)
    fun _ hrun => hrun⟩
  obtain ⟨s, hs, hrun⟩ := List.mem_map.mp hrun
  exact ⟨s, (List.mem_filter.mp ((List.perm_insertionSort _ _).mem_iff.mp hs)).1, hrun⟩

theorem Conforms.reads_uses (h : Conforms C t) (hn : t.RunsNamed) (hc : t.Constraints)
    {budget : Int} : Reads t handle ((visible budget (t.useRows handle budget)).map (·.analysisRunId))
      (readUses handle budget t) := by
  intro out hread
  unfold readUses at hread
  obtain ⟨e, hentity, hread⟩ := bind_eq_ok hread
  obtain ⟨inv, _, hread⟩ := bind_eq_ok hread
  cases hread
  have hentity := entityOrThrow_ok hentity
  refine ⟨e, hentity, hn.evidenced h.sound hc (mem_of_lookup hentity) (fun run hrun => .inl ?_)
    fun _ hrun => hrun⟩
  obtain ⟨r, hr, hrun⟩ := List.mem_map.mp hrun
  exact ⟨r, (List.mem_filter.mp ((List.perm_insertionSort _ _).mem_iff.mp (visible_sublist.subset hr))).1, hrun⟩

theorem Conforms.reads_guards (h : Conforms C t) (hu : C.Unambiguous) (hn : t.RunsNamed)
    (hc : t.Constraints) {budget : Int} :
    Reads t handle (guardsReads t handle budget) (readGuards handle budget t) := by
  intro out hread
  unfold readGuards at hread
  obtain ⟨e, hentity, hread⟩ := bind_eq_ok hread
  obtain ⟨inv, _, hread⟩ := bind_eq_ok hread
  cases hread
  have hentity := entityOrThrow_ok hentity
  refine ⟨e, hentity, hn.evidenced h.sound hc (mem_of_lookup hentity) (fun run hrun => .inl ?_)
    fun run hrun => ?_⟩
  · obtain ⟨r, hr, hrun⟩ := List.mem_map.mp hrun
    exact ⟨r, (List.mem_filter.mp ((List.perm_insertionSort _ _).mem_iff.mp (visible_sublist.subset hr))).1,
      hrun⟩
  · unfold guardsReads at hrun
    rw [hentity, Option.elim_some] at hrun
    obtain ⟨r, hr, hrun⟩ := List.mem_flatMap.mp hrun
    rw [List.map_cons] at hrun
    rcases List.mem_cons.mp hrun with hrun | hrun
    · exact List.mem_map.mpr ⟨r, hr, hrun.symm⟩
    · obtain ⟨r', hr', hrun⟩ := List.mem_map.mp hrun
      exact List.mem_map.mpr ⟨r, hr, (h.run_of_predicate hu (visible_sublist.subset hr) hr').symm.trans hrun⟩

/-- The edges of a slice are relations. -/
theorem sliceRows_subset {direction : String} {relations : List String}
    {budgetNodes budgetDepth : Int} {out : SliceResponse}
    (h : readSliceAll handle direction relations budgetNodes budgetDepth t = .ok out) :
    ∀ r ∈ sliceRows t handle direction relations budgetNodes budgetDepth, r ∈ t.relations := by
  obtain ⟨target, s, _, hsearch, hsound, hqueue, _⟩ := readSliceAll_rows h
  intro r hr
  unfold sliceRows at hr
  rw [hsearch, Option.elim_some, hsound.selected_eq] at hr
  obtain ⟨v, _, hr⟩ := List.mem_flatMap.mp (List.mem_filter.mp hr).1
  have hr := (List.mem_filter.mp ((List.perm_insertionSort _ _).mem_iff.mp hr)).1
  unfold Tables.sliceEdges at hr
  split at hr
  · exact absurd hr List.not_mem_nil
  · exact (List.mem_filter.mp hr).1

theorem Conforms.evidenced_slice (h : Conforms C t) (hn : t.RunsNamed) (hc : t.Constraints)
    {direction : String} {relations : List String} {budgetNodes budgetDepth : Int}
    {out : SliceResponse}
    (hread : readSliceAll handle direction relations budgetNodes budgetDepth t = .ok out) :
    ∃ e, t.entity handle = some e ∧ Evidenced e.artifactId
      ((sliceRows t handle direction relations budgetNodes budgetDepth).map (·.analysisRunId))
      out.evidence := by
  obtain ⟨e, s, hentity, _, _, _, hevidence⟩ := readSliceAll_rows hread
  rw [hevidence]
  refine ⟨e, hentity, hn.evidenced h.sound hc (mem_of_lookup hentity) (fun run hrun => .inl ?_)
    fun _ hrun => hrun⟩
  obtain ⟨r, hr, hrun⟩ := List.mem_map.mp hrun
  exact ⟨r, sliceRows_subset hread r hr, hrun⟩

theorem Conforms.reads_slice (h : Conforms C t) (hn : t.RunsNamed) (hc : t.Constraints)
    {direction : String} {relations : List String} {budgetNodes budgetDepth : Int} :
    Reads t handle
      ((sliceRows t handle direction relations budgetNodes budgetDepth).map (·.analysisRunId))
      (readSliceEnvelope handle direction relations budgetNodes budgetDepth t) := by
  intro out hread
  unfold readSliceEnvelope at hread
  cases hall : readSliceAll handle direction relations budgetNodes budgetDepth t with
  | error e =>
    rw [hall] at hread
    cases hread
  | ok answer =>
    rw [hall] at hread
    cases hread
    exact h.evidenced_slice hn hc hall

theorem Conforms.reads_graph (h : Conforms C t) (hn : t.RunsNamed) (hc : t.Constraints)
    {direction format : String} {budget : Int} :
    Reads t handle ((sliceRows t handle direction ["operand"] budget 12).map (·.analysisRunId))
      (readGraph handle direction budget format t) := by
  intro out hread
  unfold readGraph at hread
  cases hall : readSliceAll handle direction ["operand"] budget 12 t with
  | error e =>
    rw [hall] at hread
    cases hread
  | ok answer =>
    rw [hall] at hread
    cases hread
    exact h.evidenced_slice hn hc hall

end One

/-! ## 11. Traces -/

section Traces

variable {C : Contents} {t : Tables} {a : Artifact} {K : Nat} {F : Function} {p : Publish}
  {turn : Turn} {req : TraceRequest}

/-- An operand leaves the entity. -/
def Tables.HasOperand (t : Tables) (id : String) : Prop :=
  ∃ r ∈ t.relations, r.srcId = id ∧ r.kind = "llvm.operand"

theorem operandKinds_eq (t : Tables) (f : Option String) :
    traversedKinds t f (requestedKinds ["operand"]) = ["llvm.operand"] := by
  have hkinds : requestedKinds ["operand"] = ["llvm.operand"] := by decide +kernel
  rw [hkinds]
  unfold traversedKinds
  split
  · rfl
  · decide

/-- The edges at a node of a trace are the operands there. -/
theorem mem_operandAdjacency {f v : String} {r : Relation} :
    r ∈ t.adjacency (some f) ["llvm.operand"] "backward" v ↔
      r ∈ t.relations ∧ r.functionId = some f ∧ r.kind = "llvm.operand" ∧ r.srcId = v := by
  unfold Tables.adjacency rowsAt
  rw [(List.perm_insertionSort _ _).mem_iff, List.mem_filter]
  have hfrontier : r.frontier "backward" = r.srcId := if_pos rfl
  have hedges : t.sliceEdges (some f) ["llvm.operand"] =
      t.relations.filter fun r => r.functionId = some f ∧ r.kind ∈ ["llvm.operand"] :=
    if_neg (by simp)
  rw [hfrontier, hedges, List.mem_filter, decide_eq_true_eq, decide_eq_true_eq, List.mem_singleton]
  constructor
  · rintro ⟨⟨hm, hf, hk⟩, hsrc⟩
    exact ⟨hm, hf, hk, hsrc⟩
  · rintro ⟨hm, hf, hk, hsrc⟩
    exact ⟨⟨hm, hf, hk⟩, hsrc⟩

theorem sinkOperand_some {sink : String} {ordinal : Int} {r : Relation}
    (h : t.sinkOperand sink ordinal = some r) :
    r ∈ t.relations ∧ r.srcId = sink ∧ r.kind = "llvm.operand" := by
  have hc := List.find?_some h
  simp only [Bool.and_eq_true, decide_eq_true_eq] at hc
  exact ⟨List.mem_of_find?_eq_some h, hc.1.1.1, hc.1.1.2⟩

/-- The rows scanned by a trace of an entity inside the function are its operands, and where
    there is one the entity has one. -/
theorem scannedRows_operands (hc : t.Constraints) {x : Entity} (hx : x ∈ t.entities) {f : String}
    (ho : x.functionId = some f) {budgetNodes budgetDepth : Int} {out : SliceResponse}
    (hslice : readSliceAll x.id "backward" ["operand"] budgetNodes budgetDepth t = .ok out)
    {r : Relation} (hr : r ∈ scannedRows t x.id budgetNodes budgetDepth) :
    r ∈ t.relations ∧ r.functionId = some f ∧ t.HasOperand x.id := by
  obtain ⟨target, s, htarget, hsearch, hsound, hqueue, _⟩ := readSliceAll_rows hslice
  obtain rfl : x = target := Option.some.inj ((lookup_self hc.entityKey hx).symm.trans htarget)
  have hscope : x.scope = some f := by
    unfold Entity.scope
    rw [ho]
  unfold scannedRows at hr
  rw [hsearch, htarget, Option.elim_some, Option.elim_some] at hr
  rw [hscope, operandKinds_eq] at hr hsound
  obtain ⟨v, hv, hr⟩ := List.mem_flatMap.mp hr
  obtain ⟨hm, hf, hk, hsrc⟩ := mem_operandAdjacency.mp hr
  refine ⟨hm, hf, ?_⟩
  by_cases hadj : t.adjacency (some f) ["llvm.operand"] "backward" x.id = []
  · -- only the sink is visited
    obtain rfl := hsound.seen_eq_start hqueue hadj v hv
    exact ⟨r, hm, hsrc, hk⟩
  · obtain ⟨r', hr'⟩ := List.exists_mem_of_ne_nil _ hadj
    obtain ⟨hm', _, hk', hsrc'⟩ := mem_operandAdjacency.mp hr'
    exact ⟨r', hm', hsrc', hk'⟩

/-- **What a turn reads beyond what it collects** carries the run of the function, and the sink
    has an operand then. -/
theorem Contents.Shows.reads_turn (hp : C.Shows t a K F p) (h : Conforms C t) (hn : t.RunsNamed)
    (hc : t.Constraints) (hx : turn.sink ∈ t.entities)
    (ho : turn.sink.functionId = some p.target.handle) (hsliced : turn.sliced = t)
    (htables : turn.tables = t) (hread : turn.Read req) (hcalls : "calls" ∈ req.sections)
    {kind : SinkKind} {run : String}
    (hrun : some run ∈ turn.reads kind req.budgetNodes req.budgetDepth) :
    run ∈ turn.traced.evidence ∨ (run = p.run ∧ t.HasOperand turn.sink.id) := by
  have hslice := hread.slice
  have hsource := hread.source
  have hcallRuns := hread.callRuns
  unfold Turn.reads at hrun
  rw [hsliced] at hslice hrun
  rw [htables] at hsource hcallRuns hrun
  rw [if_pos hcalls] at hcallRuns
  unfold Traced.evidence
  have hoperand : ∀ {r : Relation}, r ∈ t.relations → r.srcId = turn.sink.id →
      r.kind = "llvm.operand" → r.analysisRunId = some run →
        run = p.run ∧ t.HasOperand turn.sink.id := by
    intro r hm hsrc hk hr
    have hone := hp.run_of_owned hm (hp.function_of_source h.sound hx ho hm hsrc)
    exact ⟨Option.some.inj (hr.symm.trans hone), r, hm, hsrc, hk⟩
  rcases List.mem_append.mp hrun with hrun | hrun
  rcases List.mem_append.mp hrun with hrun | hrun
  rcases List.mem_append.mp hrun with hrun | hrun
  · -- a location of the sink
    obtain ⟨e, _, hev⟩ := h.reads_source hn hc _ hsource
    exact .inl (List.mem_append_right _ (hev.closed run hrun))
  · -- a call that the slice visits
    refine .inl (List.mem_append_left _ (List.mem_append_left _ ?_))
    rw [hcallRuns]
    obtain ⟨x, hx, hrun⟩ := List.mem_map.mp hrun
    exact List.mem_filterMap.mpr ⟨some run, List.mem_map.mpr ⟨x, hx, hrun⟩, rfl⟩
  · obtain ⟨r, hr, hrun⟩ := List.mem_map.mp hrun
    obtain ⟨hm, hf, hop⟩ := scannedRows_operands hc hx ho hslice hr
    exact .inr ⟨Option.some.inj (hrun.symm.trans (hp.run_of_owned hm hf)), hop⟩
  · obtain ⟨r, hr, hrow⟩ := List.mem_map.mp hrun
    rcases List.mem_append.mp hr with hr | hr
    · obtain ⟨hm, hsrc, hk⟩ := sinkOperand_some (Option.mem_toList.mp hr)
      exact .inr (hoperand hm hsrc hk hrow)
    · cases kind with
      | ret => exact absurd hr List.not_mem_nil
      | store =>
        obtain ⟨hm, hsrc, hk⟩ := sinkOperand_some (Option.mem_toList.mp hr)
        exact .inr (hoperand hm hsrc hk hrow)

/-- With room for a second node the slice of a sink with an operand names the function's run. -/
theorem Contents.Shows.run_of_slice (hp : C.Shows t a K F p) (h : Conforms C t) (hn : t.RunsNamed)
    (hc : t.Constraints) {x : Entity} (hx : x ∈ t.entities)
    (ho : x.functionId = some p.target.handle) {budgetNodes budgetDepth : Int} {out : SliceResponse}
    (hslice : readSliceAll x.id "backward" ["operand"] budgetNodes budgetDepth t = .ok out)
    (hnodes : 1 < budgetNodes) (hdepth : 0 < budgetDepth) (hop : t.HasOperand x.id) :
    p.run ∈ out.evidence := by
  obtain ⟨target, s, htarget, hsearch, hsound, hqueue, _⟩ := readSliceAll_rows hslice
  obtain rfl : x = target := Option.some.inj ((lookup_self hc.entityKey hx).symm.trans htarget)
  have hscope : x.scope = some p.target.handle := by
    unfold Entity.scope
    rw [ho]
  rw [hscope, operandKinds_eq] at hsound
  obtain ⟨r, hm, hsrc, hk⟩ := hop
  have hadj : t.adjacency (some p.target.handle) ["llvm.operand"] "backward" x.id ≠ [] :=
    List.ne_nil_of_mem (mem_operandAdjacency.mpr
      ⟨hm, hp.function_of_source h.sound hx ho hm hsrc, hk, hsrc⟩)
  obtain ⟨r', hr'⟩ := List.exists_mem_of_ne_nil _ (hsound.selected_ne_nil hqueue hnodes hdepth hadj)
  have hrow : r' ∈ sliceRows t x.id "backward" ["operand"] budgetNodes budgetDepth := by
    unfold sliceRows
    rw [hsearch]
    exact hr'
  have hf : r'.functionId = some p.target.handle := by
    rw [hsound.selected_eq] at hr'
    obtain ⟨v, _, hr'⟩ := List.mem_flatMap.mp (List.mem_filter.mp hr').1
    exact (mem_operandAdjacency.mp hr').2.1
  obtain ⟨e, _, hev⟩ := h.evidenced_slice hn hc hslice
  exact hev.closed _ (List.mem_map.mpr ⟨r', hrow,
    hp.run_of_owned (sliceRows_subset hslice r' hrow) hf⟩)

/-- A location names the function's run. -/
theorem Contents.Shows.run_of_source (hp : C.Shows t a K F p) (h : Conforms C t) (hn : t.RunsNamed)
    (hc : t.Constraints) {x : Entity} (hx : x ∈ t.entities)
    (ho : x.functionId = some p.target.handle) {out : Envelope (List SourceLine)}
    (hsource : readSource x.id t = .ok out) {s : SourceLocation} (hs : s ∈ t.sourceLocations)
    (hid : s.entityId = x.id) : p.run ∈ out.evidence := by
  obtain ⟨e, _, hev⟩ := h.reads_source hn hc _ hsource
  refine hev.closed _ (List.mem_map.mpr ⟨s, ?_, hp.run_of_location hx ho hs hid⟩)
  exact (List.perm_insertionSort _ _).mem_iff.mpr (List.mem_filter.mpr ⟨hs, decide_eq_true hid⟩)

end Traces

/-! ## 12. Where every run is collected -/

/-- The records of the sinks that a trace of the function chooses. -/
def Contents.sinkRecords (C : Contents) (a : Artifact) (K : Nat) (kind : SinkKind)
    (selector : String) : List EntityRecord :=
  (entityRecords (C.stream a.id (functionKey K))).filter fun e =>
    e.interior && e.opcode = some kind.opcode &&
      (selector = "all" || entityId a e.localKey = selector)

/-- A trace whose slices have room for a second node, or one of whose sinks has a source
    location, or none of whose sinks has an operand. -/
def Contents.CollectsTrace (C : Contents) (t : Tables) (handle : String) (kind : SinkKind)
    (selector : String) (budgetNodes budgetDepth : Int) : Prop :=
  (1 < budgetNodes ∧ 0 < budgetDepth) ∨
    ∀ a K, t.Stores a → handle = entityId a (functionLocal (functionKey K)) →
      (∃ e ∈ C.sinkRecords a K kind selector,
        ∃ s ∈ sourceRecords (C.stream a.id (functionKey K)), s.entity = e.localKey) ∨
      ∀ e ∈ C.sinkRecords a K kind selector,
        ∀ q ∈ relationRecords (C.stream a.id (functionKey K)),
          q.kind = "llvm.operand" → q.src ≠ e.localKey

/-- An `expand` that follows no call, or a call of the caller's own function, whose analysis
    is current. -/
def Tables.CollectsExpand (t : Tables) (handle : String) : Prop :=
  ∀ e f, t.entity handle = some e → e.kind ≠ "function" →
    expansion t e handle = .materialize f → e.functionId = some f ∧ t.Current f

/-- **The queries that name the run of every row they read.** -/
def Query.Covered (C : Contents) (q : Query) (t : Tables) : Prop :=
  match q with
  | .expand handle => t.CollectsExpand handle
  | .traceReturn handle selector budgetNodes budgetDepth _ _ =>
    C.CollectsTrace t handle .ret selector budgetNodes budgetDepth
  | .traceStores handle budgetNodes budgetDepth _ _ =>
    C.CollectsTrace t handle .store "all" budgetNodes budgetDepth
  | _ => True

section Covered

variable {C : Contents} {db db' db₁ : Database} {adapter : Adapter} {env : Environment}
  {draw : Nat → Nat → MaterializeDraw} {q : Query}

theorem Contents.Answered.ensured (h : C.Answered db.toTables adapter) {d : MaterializeDraw}
    {handle : String} {result : Except Thrown Unit}
    (hens : ensureMaterialized env adapter.functionGraph d handle db = (db', result)) :
    Relation.ReflTransGen (Attempt C) db db' ∧ C.Answered db'.toTables adapter := by
  have hstep : EnsureStep env adapter.functionGraph (fun _ _ => d) db db' :=
    ⟨0, 0, handle, congrArg Prod.fst hens⟩
  exact h.ensure hstep

/-- An entity that is there after a materialization on demand for it was there before. -/
theorem ensure_entity {graph : String → String → Outcome} {d : MaterializeDraw} {handle : String}
    {e : Entity} {result : Except Thrown Unit}
    (hens : ensureMaterialized env graph d handle db = (db₁, result))
    (he : db₁.entity handle = some e) : ∃ e₀, db.entity handle = some e₀ := by
  cases hnone : db.entity handle with
  | some e₀ => exact ⟨e₀, rfl⟩
  | none =>
    unfold ensureMaterialized at hens
    rw [hnone] at hens
    cases hens
    rw [hnone] at he
    cases he

/-- The rows of a function's entity, before and after a run, name one function. -/
theorem History.function_before (h : History C db) (hu : C.Unambiguous)
    (hrun : Relation.ReflTransGen (Attempt C) db db') {handle : String} {e e' : Entity}
    (he : db.entity handle = some e) (he' : db'.entity handle = some e') (hk : e'.kind = "function") :
    e.kind = "function" ∧ ∃ a K, db.Stores a ∧ db'.Stores a ∧ e.artifactId = a.id ∧
      handle = entityId a (functionLocal (functionKey K)) := by
  have hconf' := (h.tail hrun).conforms hu
  obtain ⟨a, ha, haid, hid, hplaced⟩ := (h.conforms hu).sound.entities e (mem_of_lookup he)
  have hst : db.Stores a := ⟨a, ha, rfl, rfl⟩
  obtain ⟨b, K, F, m, hh⟩ := hconf'.functions e' (mem_of_lookup he') hk
  have hsame : entityId a e.localKey = entityId b (functionLocal (functionKey K)) :=
    (hid.symm.trans (key_of_lookup he)).trans ((key_of_lookup he').symm.trans hh.cols.1)
  obtain ⟨_, _, hlocal⟩ := hconf'.handle_inj db'.constraints (hst.history hrun) hh.stores
    hplaced.colon_mem (colon_mem_functionLocal _) hsame
  refine ⟨(hplaced.of_functionLocal hlocal).1, a, K, hst, hst.history hrun, haid.symm, ?_⟩
  rw [← hlocal, ← hid]
  exact (key_of_lookup he).symm

/-- **A function is settled** after the first materialization on demand, and what names it lies
    in it. -/
theorem History.settled_function (h : History C db) (hu : C.Unambiguous)
    (hans : C.Answered db.toTables adapter) {d : MaterializeDraw} {handle : String} {e : Entity}
    (hens : ensureMaterialized env adapter.functionGraph d handle db = (db₁, .ok ()))
    (hfunction : db₁.function handle = some e) :
    ∃ e₀, Relation.ReflTransGen (Attempt C) db db₁ ∧ db.entity handle = some e₀ ∧
      db₁.entity handle = some e ∧ e.kind = "function" ∧ db₁.Settled handle ∧
      ∀ x ∈ db₁.entities, x.functionId = some handle → x.home = some handle := by
  obtain ⟨hrun, _⟩ := hans.ensured hens
  have hconf := (h.tail hrun).conforms hu
  obtain ⟨hentity, hkind⟩ := Option.filter_eq_some_iff.mp hfunction
  have hkind := of_decide_eq_true hkind
  obtain ⟨e₀, he₀⟩ := ensure_entity hens hentity
  obtain ⟨hkind₀, _⟩ := h.function_before hu hrun he₀ hentity hkind
  refine ⟨e₀, hrun, he₀, hentity, hkind, (h.conforms hu).settled he₀ hkind₀ hens, ?_⟩
  intro x hxm ho
  unfold Entity.home
  split
  · rename_i hk
    obtain ⟨_, _, _, _, hh⟩ := hconf.functions x hxm hk
    rw [hh.cols.2.2.2.2] at ho
    cases ho
  · exact ho

/-- **The function of a trace is settled** after the first materialization on demand, and the
    sinks lie in it. -/
theorem Query.Traces.settled {req : TraceRequest} {selector : String} {out : TraceEnvelope}
    (ht : q.Traces env adapter.functionGraph draw db db₁ db' req selector out) (h : History C db)
    (hu : C.Unambiguous) (hans : C.Answered db.toTables adapter) :
    ∃ e₀ e, Relation.ReflTransGen (Attempt C) db db₁ ∧ db.entity q.handle = some e₀ ∧
      db₁.entity q.handle = some e ∧ e.kind = "function" ∧ db₁.Settled q.handle ∧
      ∀ x ∈ q.sinks db₁.toTables, x ∈ db₁.entities ∧ x.home = some q.handle := by
  obtain ⟨e₀, hrun, he₀, hentity, hkind, hset, hhome⟩ :=
    h.settled_function hu hans ht.ensured ht.function
  refine ⟨e₀, _, hrun, he₀, hentity, hkind, hset, fun x hx => ?_⟩
  obtain ⟨hxm, ho, _⟩ := (ht.mem_sinks x).mp hx
  exact ⟨hxm, hhome x hxm ho⟩

/-- **The evidence of a trace**, and when it names every run. -/
theorem Query.Traces.evidenced (h : History C db) (hu : C.Unambiguous)
    (hans : C.Answered db.toTables adapter) {req : TraceRequest} {selector : String}
    {out : TraceEnvelope} (ht : q.Traces env adapter.functionGraph draw db db₁ db' req selector out) :
    ∃ e, db.entity q.handle = some e ∧ out.evidence.head? = some e.artifactId ∧
      out.evidence.Nodup ∧
      (C.CollectsTrace db.toTables q.handle req.sinkKind selector req.budgetNodes req.budgetDepth →
        ∀ run, some run ∈ (q.turns env adapter.functionGraph draw db).flatMap
          (Turn.reads req.sinkKind req.budgetNodes req.budgetDepth) → run ∈ out.evidence) := by
  obtain ⟨e₀, e, hrun, he₀, hentity, hkind, hset, hhome⟩ := ht.settled h hu hans
  have h₁ := h.tail hrun
  have hconf := h₁.conforms hu
  have hnamed := h₁.runsNamed
  obtain ⟨hkind₀, a, K, hst, hst₁, hart, hhandle⟩ := h.function_before hu hrun he₀ hentity hkind
  obtain rfl : req.function = e := Option.some.inj
    ((Option.filter_eq_some_iff.mp ht.function).1.symm.trans hentity)
  have hmem := ht.mem_sinks
  -- the sinks lie in the function
  have howned : ∀ x ∈ q.sinks db₁.toTables, x ∈ db₁.entities ∧ x.functionId = some q.handle :=
    fun x hx => ⟨((hmem x).mp hx).1, ((hmem x).mp hx).2.1⟩
  refine ⟨e₀, he₀, ?_, ?_, fun hcov run hread => ?_⟩
  · rw [ht.evidence, ← h.artifact_eq hu hrun he₀ hentity]
    exact firstOccurrences_head rfl
  · rw [ht.evidence]
    exact firstOccurrences_nodup _
  obtain ⟨turn, hturn, hread⟩ := List.mem_flatMap.mp hread
  have hstate : ∀ turn ∈ q.turns env adapter.functionGraph draw db,
      turn.sink ∈ q.sinks db₁.toTables ∧ turn.sliced = db₁.toTables ∧
        turn.tables = db₁.toTables := by
    rw [ht.turns]
    exact hset.turns hhome
  have hreads : ∀ turn ∈ q.turns env adapter.functionGraph draw db, turn.Read req := by
    rw [ht.turns]
    exact traceTurns_read
  have hlisted : ∀ {turn}, turn ∈ q.turns env adapter.functionGraph draw db → ∀ {run : String},
      run ∈ turn.traced.evidence → run ∈ out.evidence := by
    intro turn hturn run hrun
    rw [ht.evidence, mem_firstOccurrences]
    exact List.mem_cons_of_mem _ (List.mem_flatMap.mpr ⟨turn, hturn, hrun⟩)
  obtain ⟨hsink, hsliced, htables⟩ := hstate turn hturn
  obtain ⟨hx, ho⟩ := howned _ hsink
  obtain ⟨b, J, G, p, hp, hown, e₁, he₁, hin, hrow⟩ := hconf.shown_of_entity hu hx ho
  have ho' : turn.sink.functionId = some p.target.handle := hown ▸ ho
  rcases hp.reads_turn hconf hnamed db₁.constraints hx ho' hsliced htables (hreads turn hturn)
    (ht.sections _ (by decide)) hread with hcollected | ⟨rfl, hop⟩
  · exact hlisted hturn hcollected
  -- the run of the function is collected
  rcases hcov with ⟨hnodes, hdepth⟩ | hcov
  · have hslice := (hreads turn hturn).slice
    rw [hsliced] at hslice
    refine hlisted hturn (List.mem_append_left _ (List.mem_append_right _ ?_))
    exact hp.run_of_slice hconf hnamed db₁.constraints hx ho' hslice hnodes hdepth hop
  · have hname : entityId a (functionLocal (functionKey K)) =
        entityId b (functionLocal (functionKey J)) := by
      rw [← hhandle, ← hown, hp.publishes.handle]
    obtain ⟨hid, hsha, hkey⟩ := hconf.handle_inj db₁.constraints hst₁ hp.stores
      (colon_mem_functionLocal _) (colon_mem_functionLocal _) hname
    obtain rfl := functionKey_inj (functionLocal_inj hkey)
    have hstream : C.stream a.id (functionKey K) = C.stream b.id (functionKey K) := by rw [hid]
    rcases hcov a K hst hhandle with ⟨e, he, s, hs, hsame⟩ | hnone
    · -- a sink with a location
      obtain ⟨he, hcond⟩ := List.mem_filter.mp he
      rw [Bool.and_eq_true, Bool.and_eq_true, decide_eq_true_eq, Bool.or_eq_true,
        decide_eq_true_eq, decide_eq_true_eq] at hcond
      obtain ⟨⟨hinterior, hopcode⟩, hselected⟩ := hcond
      rw [hstream, ← hp.publishes.entities] at he
      rw [hstream, ← hp.publishes.sources] at hs
      obtain ⟨hym, hyo⟩ := (hp.snapshot.entities _).mpr ⟨e, he, hinterior, rfl⟩
      have hyid : (p.ownedRow e).id = entityId a e.localKey :=
        (hp.entityId_eq e.localKey).trans (entityId_congr hsha _).symm
      have hysink : p.ownedRow e ∈ q.sinks db₁.toTables :=
        (hmem _).mpr ⟨hym, hown ▸ hyo, hopcode, hselected.imp id fun hsel => hyid.trans hsel⟩
      rw [← ht.sinks] at hysink
      obtain ⟨turn', hturn', hy⟩ := List.mem_map.mp hysink
      obtain ⟨_, _, htables'⟩ := hstate turn' hturn'
      have hsource := (hreads turn' hturn').source
      rw [htables', hy] at hsource
      have hsm : p.snapshotSource s ∈ db₁.sourceLocations := by
        have hm : p.snapshotSource s ∈ db₁.sourcesOf p.target.handle := by
          rw [hp.snapshot.sources]
          exact List.mem_map_of_mem hs
        exact (List.mem_filter.mp hm).1
      refine hlisted hturn' (List.mem_append_right _ ?_)
      exact hp.run_of_source hconf hnamed db₁.constraints hym hyo hsource hsm
        (congrArg (entityId p.target.artifact) hsame)
    · -- no sink has an operand
      exfalso
      obtain ⟨r, hr, hsrc, hk⟩ := hop
      obtain ⟨_, _, hopcode, hselected⟩ := (hmem _).mp hsink
      have hxid : turn.sink.id = entityId a e₁.localKey := by
        rw [hrow]
        exact (hp.entityId_eq e₁.localKey).trans (entityId_congr hsha _).symm
      have he₁' : e₁ ∈ C.sinkRecords a K req.sinkKind selector := by
        refine List.mem_filter.mpr ⟨?_, ?_⟩
        · rw [hstream, ← hp.publishes.entities]
          exact he₁
        · rw [hrow] at hopcode
          rw [Bool.and_eq_true, Bool.and_eq_true, decide_eq_true_eq, Bool.or_eq_true,
            decide_eq_true_eq, decide_eq_true_eq]
          exact ⟨⟨hin, hopcode⟩, hselected.imp id fun hsel => hxid.symm.trans hsel⟩
      obtain ⟨q', hq', rfl⟩ := hp.owned_relation hconf.sound hx ho' hr hsrc
      refine hnone e₁ he₁' q' ?_ hk ?_
      · rw [hstream, ← hp.publishes.relations]
        exact hq'
      · have hq'' := hq'
        rw [hp.relations_eq] at hq''
        have hsame : entityId p.target.artifact q'.src =
            entityId p.target.artifact e₁.localKey := by
          have hid : turn.sink.id = entityId p.target.artifact e₁.localKey := by rw [hrow]; rfl
          exact hsrc.trans hid
        refine entityId_right_inj ?_ ?_ hsame
        · exact (Selected.relation_declared (S := ⟨C.module b.id, K, G⟩) (C.graphs G) hq'').2.1.colon_mem
        · have hin₁ : .entity e₁ ∈ functionGraph C.postDominators (C.module b.id) (functionKey K) := by
            rw [hp.publishes.entities] at he₁
            exact mem_entityRecords.mp he₁
          exact (functionGraph_scoped hp.select hin₁).colon_mem

/-- The response of a `materialize` refers to runs. -/
theorem materialize_runs {graph : String → String → Outcome} {d : MaterializeDraw} {f : String}
    {refresh : Bool} {response : Materialized}
    (h : MaterializeRun env graph d f refresh db db' (.ok response)) :
    (∃ fn, db.entity f = some fn) ∧
      ∀ run, some run ∈ response.runs → Refers (some run) db'.runIds := by
  cases h with
  | answered henter =>
    unfold enter at henter
    split at henter
    · cases henter
    · rename_i fn hfunction
      refine ⟨⟨fn, (Option.filter_eq_some_iff.mp hfunction).1⟩, fun run hrun => ?_⟩
      split at henter
      · cases henter
      · dsimp only at henter
        split at henter
        · cases hinv : investigationId db.toTables with
          | error e =>
            rw [hinv] at henter
            cases henter
          | ok inv =>
            rw [hinv] at henter
            cases henter
            obtain ⟨m, hm, hrunm⟩ := Option.bind_eq_some_iff.mp (List.mem_singleton.mp hrun).symm
            have hrefs := (db.constraints.materializationRefs m (mem_of_lookup hm)).2.2
            rw [hrunm] at hrefs
            exact hrefs
        · split at henter
          · cases hinv : investigationId db.toTables with
            | error e =>
              rw [hinv] at henter
              cases henter
            | ok inv =>
              rw [hinv] at henter
              cases henter
              exact absurd hrun List.not_mem_nil
          · cases henter
  | published henter hclaim hgraph hpublish =>
    obtain ⟨hfn, _, _⟩ := enter_analyse henter
    refine ⟨⟨_, (Option.filter_eq_some_iff.mp hfn).1⟩, fun run hrun => ?_⟩
    obtain rfl := Option.some.inj (List.mem_singleton.mp hrun)
    obtain ⟨hids, _⟩ := Publish.exec_tested hpublish
    obtain ⟨inv, _, _, _, ht₁⟩ := claimFunction_ok hclaim
    rw [refers_some, hids]
    unfold Tables.runIds
    rw [ht₁, List.map_append]
    exact List.mem_append_right _ (List.mem_singleton.mpr rfl)

/-- A call joins entities of one artifact. -/
theorem Conforms.call_artifact {t : Tables} (h : Conforms C t) (hu : C.Unambiguous)
    (hc : t.Constraints) {e fn : Entity} {r : Relation} (hr : r ∈ t.relations) (he : e ∈ t.entities)
    (hfn : fn ∈ t.entities) (hsrc : r.srcId = e.id) (hdst : r.dstId = fn.id) :
    fn.artifactId = e.artifactId := by
  obtain ⟨a, K, F, p, hp, q, hq, rfl⟩ := h.relation_shown hu hr
  rw [hp.relations_eq] at hq
  obtain ⟨_, hs, hd⟩ := Selected.relation_declared (S := ⟨C.module a.id, K, F⟩) (C.graphs F) hq
  have hpair := (h.id_iff hc hp.stores he hs.colon_mem).mp (hsrc.symm.trans (hp.srcId q))
  have hpair' := (h.id_iff hc hp.stores hfn hd.colon_mem).mp (hdst.symm.trans (hp.dstId q))
  exact (congrArg Prod.fst hpair').trans (congrArg Prod.fst hpair).symm

/-- What leads `expand` to a `materialize`. -/
theorem expansion_materialize {t : Tables} {e : Entity} {handle f : String}
    (h : expansion t e handle = .materialize f) :
    (e.kind = "function" ∧ f = handle) ∨ (e.kind ≠ "function" ∧
      ∃ call, t.callRow handle = some call ∧ call.dstId = f) := by
  unfold expansion at h
  split at h
  · rename_i hk
    cases h
    exact .inl ⟨hk, rfl⟩
  · rename_i hk
    split at h
    · cases h
    · rename_i call hcall
      split at h
      · cases h
      · cases h
        exact .inr ⟨hk, call, hcall, rfl⟩

theorem callRow_some {t : Tables} {handle : String} {call : Relation}
    (h : t.callRow handle = some call) : call ∈ t.relations ∧ call.srcId = handle := by
  have hc := List.find?_some h
  rw [Bool.and_eq_true, Bool.and_eq_true, decide_eq_true_eq] at hc
  exact ⟨List.mem_of_find?_eq_some h, hc.1.1⟩

/-- A call of the caller's own function, whose analysis is current: the cache answers with the
    run of the call row. -/
theorem Conforms.run_of_recursion (h : Conforms C db.toTables) (hu : C.Unambiguous) {e : Entity}
    {call : Relation} {f : String} (he : e ∈ db.entities) (ho : e.functionId = some f)
    (hcur : db.Current f) (hr : call ∈ db.relations) (hsrc : call.srcId = e.id)
    {graph : String → String → Outcome} {d : MaterializeDraw} {response : Materialized}
    (hm : Irez.materialize env graph d f false db = (db', .ok response)) :
    call.analysisRunId ∈ response.runs := by
  obtain ⟨m, hrow, _⟩ := hcur.row
  have hid : m.functionId = f := key_of_lookup hrow
  obtain ⟨fn, hfn, hk, hfid, _⟩ := h.materializations m (mem_of_lookup hrow)
  obtain ⟨a, K, F, m', hh⟩ := h.functions fn hfn hk
  obtain rfl := h.row_unique db.constraints hh.row (mem_of_lookup hrow) (hh.handle.trans hfid.symm)
  have hname : fn.id = f := hfid.symm.trans hid
  obtain ⟨run, hrun⟩ := Option.ne_none_iff_exists'.mp
    (hh.run_of_current (hname.symm ▸ hcur))
  obtain ⟨p, hp, hprun⟩ := hh.shows hu hrun
  have hhandle : p.target.handle = f :=
    hp.publishes.handle.trans (hh.cols.1.symm.trans hname)
  have hcallrun := hp.run_of_owned hr
    (hp.function_of_source h.sound he (hhandle ▸ ho) hr hsrc)
  have hcached : (db.materialization f).any (cacheCurrent db.toTables) = true :=
    (cacheCurrent_iff db.constraints).mpr hcur
  have henter : ∀ {entry}, Irez.enter db.toTables f false = .ok entry →
      entry = .answered (.cached (some run)) := by
    intro entry henter
    unfold Irez.enter at henter
    split at henter
    · cases henter
    · split at henter
      · cases henter
      · dsimp only at henter
        rw [hcached, hrow, Bool.not_false, Bool.true_and, if_pos rfl, Option.bind_some, hrun]
          at henter
        cases hinv : investigationId db.toTables with
        | error e =>
          rw [hinv] at henter
          cases henter
        | ok inv =>
          rw [hinv] at henter
          cases henter
          rfl
  cases materialize_run hm with
  | answered h =>
    cases henter h
    rw [hcallrun, hprun]
    exact List.mem_singleton.mpr rfl
  | published h => cases henter h

/-- **The evidence of `expand`**, and when it names the run of the call it follows. -/
theorem expand_evidenced (h : History C db) (hu : C.Unambiguous)
    (hans : C.Answered db.toTables adapter) {d : MaterializeDraw} {handle : String}
    {out : Envelope Expanded}
    (hq : Irez.expand env adapter.functionGraph d handle db = (db', .ok out)) :
    ∃ e, db.entity handle = some e ∧ out.evidence.head? = some e.artifactId ∧ out.evidence.Nodup ∧
      (db.CollectsExpand handle → ∀ run, some run ∈ expandReads db.toTables handle →
        run ∈ out.evidence) := by
  have hconf := h.conforms hu
  unfold Irez.expand at hq
  split at hq
  · cases hq
  · rename_i e he
    have hid : e.id = handle := key_of_lookup he
    refine ⟨e, he, ?_⟩
    have hreads : ∀ run, some run ∈ expandReads db.toTables handle → e.kind ≠ "function" ∧
        ∃ call, db.callRow handle = some call ∧ call.analysisRunId = some run := by
      intro run hrun
      unfold expandReads at hrun
      rw [he, Option.elim_some] at hrun
      split at hrun
      · exact absurd hrun List.not_mem_nil
      · rename_i hk
        obtain ⟨call, hcall, hrun⟩ := List.mem_map.mp hrun
        exact ⟨hk, call, Option.mem_toList.mp hcall, hrun⟩
    split at hq
    · -- no call
      rename_i hexp
      cases hinv : investigationId db.toTables with
      | error err =>
        rw [hinv] at hq
        cases hq
      | ok inv =>
        rw [hinv] at hq
        cases hq
        refine ⟨rfl, List.nodup_singleton _, fun _ run hrun => ?_⟩
        obtain ⟨hk, call, hcall, _⟩ := hreads run hrun
        unfold expansion at hexp
        rw [if_neg hk, hcall] at hexp
        dsimp only at hexp
        split at hexp <;> cases hexp
    · -- an external call
      rename_i call hexp
      cases hinv : investigationId db.toTables with
      | error err =>
        rw [hinv] at hq
        cases hq
      | ok inv =>
        rw [hinv] at hq
        cases hq
        have hcallRow : db.callRow handle = some call := by
          unfold expansion at hexp
          split at hexp
          · cases hexp
          · split at hexp
            · cases hexp
            · rename_i hcall
              split at hexp
              · cases hexp
                exact hcall
              · cases hexp
        have hev : Evidenced e.artifactId [call.analysisRunId]
            (evidenceRefs e.artifactId [call.analysisRunId]) :=
          h.runsNamed.evidenced hconf.sound db.constraints (mem_of_lookup he) (fun run hrun =>
            .inl ⟨call, (callRow_some hcallRow).1, (List.mem_singleton.mp hrun).symm⟩) fun _ hrun => hrun
        refine ⟨hev.head, hev.nodup, fun _ run hrun => hev.closed run ?_⟩
        obtain ⟨_, call', hcall', hrun'⟩ := hreads run hrun
        obtain rfl := Option.some.inj (hcallRow.symm.trans hcall')
        exact List.mem_singleton.mpr hrun'.symm
    · -- a function
      rename_i f hexp
      split at hq
      · cases hq
      · rename_i db₁ response hm
        obtain ⟨⟨fn, hfn⟩, hruns⟩ := materialize_runs (materialize_run hm)
        have hart : fn.artifactId = e.artifactId := by
          rcases expansion_materialize hexp with ⟨_, rfl⟩ | ⟨_, call, hcall, rfl⟩
          · obtain rfl := Option.some.inj (he.symm.trans hfn)
            rfl
          · obtain ⟨hr, hsrc⟩ := callRow_some hcall
            exact hconf.call_artifact hu db.constraints hr (mem_of_lookup he) (mem_of_lookup hfn)
              (hsrc.trans hid.symm) (key_of_lookup hfn).symm
        cases hinv : investigationId db₁.toTables with
        | error err =>
          rw [hinv] at hq
          cases hq
        | ok inv =>
          rw [hinv] at hq
          cases hq
          have hfirst : (db.entity f).elim "" (·.artifactId) = e.artifactId := by
            rw [hfn]
            exact hart
          have hnamed := (h.tail (.single (hans.materialize hm).1)).runsNamed
          have hne : ∀ run, some run ∈ response.runs → run ≠ "" ∧ run ≠ e.artifactId :=
            fun run hrun => ⟨(hnamed.ne (hruns run hrun)).1, fun heq => by
              obtain ⟨u, hu'⟩ := hnamed run (refers_some.mp (hruns run hrun))
              obtain ⟨a, ha, haid, _⟩ := hconf.sound.entities e (mem_of_lookup he)
              rw [heq, ← haid, (hconf.sound.artifacts a ha).id] at hu'
              have hc := congrArg String.toList hu'
              rw [String.toList_append, String.toList_append] at hc
              cases hc⟩
          show (evidenceRefs _ _).head? = _ ∧ (evidenceRefs _ _).Nodup ∧ (_ → _)
          rw [hfirst]
          refine ⟨evidenceRefs_head _ _, evidenceRefs_nodup fun hrun => (hne _ hrun).2 rfl,
            fun hcov run hrun => ?_⟩
          obtain ⟨hk, call, hcall, hcallrun⟩ := hreads run hrun
          obtain ⟨ho, hcur⟩ := hcov e f he hk hexp
          obtain ⟨hr, hsrc⟩ := callRow_some hcall
          have hmem := hconf.run_of_recursion hu (mem_of_lookup he) ho hcur hr
            (hsrc.trans hid.symm) hm
          rw [hcallrun] at hmem
          exact mem_evidenceRefs hmem (hne run hmem).1

/-- The parts of a context name the runs of their rows. -/
theorem context_evidenced (h : History C db) (hu : C.Unambiguous)
    (hans : C.Answered db.toTables adapter) {d : Nat → MaterializeDraw} {handle : String}
    {budget : Int} {out : Envelope Context}
    (hq : contextQuery env adapter.functionGraph d handle budget db = (db', .ok out)) :
    ∃ db₁ db₂ : Database,
      (showQuery env adapter.functionGraph (d 0) handle "summary" none 100 db).1 = db₁ ∧
      (sourceQuery env adapter.functionGraph (d 1) handle db₁).1 = db₂ ∧
      (graphQuery env adapter.functionGraph (d 2) handle "backward" budget "json" db₂).1 = db' ∧
      ensureMaterialized env adapter.functionGraph (d 0) handle db = (db₁, .ok ()) ∧
      ∃ e, db₁.entity handle = some e ∧ Evidenced e.artifactId
        (showReads db₁.toTables handle "summary" ++
          (db₂.locations handle).map (·.analysisRunId) ++
          (sliceRows db'.toTables handle "backward" ["operand"] budget 12).map (·.analysisRunId))
        out.evidence := by
  unfold contextQuery at hq
  split at hq
  · cases hq
  · rename_i db₁ shown h₁
    split at hq
    · cases hq
    · rename_i db₂ src h₂
      split at hq
      · cases hq
      · rename_i db₃ valueGraph h₃
        cases hq
        obtain ⟨hens₁, hread₁⟩ := afterEnsure_ok h₁
        obtain ⟨hens₂, hread₂⟩ := afterEnsure_ok h₂
        obtain ⟨hens₃, hread₃⟩ := afterEnsure_ok h₃
        obtain ⟨hrun₁, hans₁⟩ := hans.ensured hens₁
        obtain ⟨hrun₂, hans₂⟩ := hans₁.ensured hens₂
        obtain ⟨hrun₃, _⟩ := hans₂.ensured hens₃
        have hist₁ := h.tail hrun₁
        have hist₂ := hist₁.tail hrun₂
        have hist₃ := hist₂.tail hrun₃
        obtain ⟨e, he, hshown⟩ := (hist₁.conforms hu).reads_show hu hist₁.runsNamed db₁.constraints _ hread₁
        obtain ⟨_, _, hsrc⟩ := (hist₂.conforms hu).reads_source hist₂.runsNamed db₂.constraints _ hread₂
        obtain ⟨_, _, hgraph⟩ := (hist₃.conforms hu).reads_graph hist₃.runsNamed db'.constraints _ hread₃
        refine ⟨db₁, db₂, congrArg Prod.fst h₁, congrArg Prod.fst h₂, congrArg Prod.fst h₃, hens₁, e,
          he, ⟨firstOccurrences_head ?_, firstOccurrences_nodup _, fun run hrun => ?_⟩⟩
        · rw [List.append_assoc, List.head?_append, hshown.head]
          rfl
        · refine mem_firstOccurrences.mpr ?_
          rcases List.mem_append.mp hrun with hrun | hrun
          · rcases List.mem_append.mp hrun with hrun | hrun
            · exact List.mem_append_left _ (List.mem_append_left _ (hshown.closed run hrun))
            · exact List.mem_append_left _ (List.mem_append_right _ (hsrc.closed run hrun))
          · exact List.mem_append_right _ (hgraph.closed run hrun)

/-- A query that reads one state. -/
theorem afterEnsure_evidenced (h : History C db) (hu : C.Unambiguous)
    (hans : C.Answered db.toTables adapter) {ρ : Type} {make : Envelope ρ → Response}
    (hmake : ∀ o, (make o).evidence = o.evidence) {handle : String}
    {read : Tables → Except Thrown (Envelope ρ)} (reads : Tables → List (Option String))
    (hread : ∀ db₁ : Database, History C db₁ → Reads db₁.toTables handle (reads db₁.toTables)
      (read db₁.toTables)) {d : MaterializeDraw} {out : Response}
    (hq : respond make (afterEnsure env adapter.functionGraph d handle read db) = (db', .ok out)) :
    ∃ e, db.entity handle = some e ∧ out.evidence.head? = some e.artifactId ∧ out.evidence.Nodup ∧
      ∀ run, some run ∈ reads (ensureMaterialized env adapter.functionGraph d handle db).1.toTables →
        run ∈ out.evidence := by
  obtain ⟨o, ho, rfl⟩ := respond_ok hq
  obtain ⟨hens, hr⟩ := afterEnsure_ok ho
  obtain ⟨hrun, _⟩ := hans.ensured hens
  obtain ⟨e', he', hev⟩ := hread db' (h.tail hrun) o hr
  obtain ⟨e, he⟩ := ensure_entity hens he'
  rw [hmake, hens]
  refine ⟨e, he, ?_, hev.nodup, hev.closed⟩
  rw [hev.head, h.artifact_eq hu hrun he he']

/-- **Provenance closure.** After every history, the evidence of a query that answers starts
    with the artifact of its handle and has no entry twice, and where the query is `Covered` it
    names the run of every row that was read for the result. -/
theorem evidence_closed (h : History C db) (hu : C.Unambiguous)
    (hans : C.Answered db.toTables adapter) {out : Response}
    (hq : q.perform env adapter.functionGraph draw db = (db', .ok out)) :
    ∃ e, db.entity q.handle = some e ∧ out.evidence.head? = some e.artifactId ∧
      out.evidence.Nodup ∧
      (q.Covered C db.toTables →
        ∀ run, some run ∈ q.reads env adapter.functionGraph draw db → run ∈ out.evidence) := by
  have plain : ∀ {reads : List (Option String)} {handle : String},
      (∃ e, db.entity handle = some e ∧ out.evidence.head? = some e.artifactId ∧
        out.evidence.Nodup ∧ ∀ run, some run ∈ reads → run ∈ out.evidence) →
      ∃ e, db.entity handle = some e ∧ out.evidence.head? = some e.artifactId ∧
        out.evidence.Nodup ∧ (True → ∀ run, some run ∈ reads → run ∈ out.evidence) := by
    rintro reads handle ⟨e, he, hhead, hnodup, hclosed⟩
    exact ⟨e, he, hhead, hnodup, fun _ => hclosed⟩
  cases q with
  | view handle name kind budget =>
    exact plain (afterEnsure_evidenced h hu hans (fun _ => rfl) (fun t => showReads t handle name)
      (fun db₁ h₁ => (h₁.conforms hu).reads_show hu h₁.runsNamed db₁.constraints) hq)
  | source handle =>
    exact plain (afterEnsure_evidenced h hu hans (fun _ => rfl)
      (fun t => (t.locations handle).map SourceLocation.analysisRunId)
      (fun db₁ h₁ => (h₁.conforms hu).reads_source h₁.runsNamed db₁.constraints) hq)
  | uses handle budget =>
    exact plain (afterEnsure_evidenced h hu hans (fun _ => rfl)
      (fun t => (visible budget (t.useRows handle budget)).map Relation.analysisRunId)
      (fun db₁ h₁ => (h₁.conforms hu).reads_uses h₁.runsNamed db₁.constraints) hq)
  | slice handle direction relations budgetNodes budgetDepth =>
    exact plain (afterEnsure_evidenced h hu hans (fun _ => rfl) (fun t =>
      (sliceRows t handle direction relations budgetNodes budgetDepth).map Relation.analysisRunId)
      (fun db₁ h₁ => (h₁.conforms hu).reads_slice h₁.runsNamed db₁.constraints) hq)
  | graph handle direction budget format =>
    exact plain (afterEnsure_evidenced h hu hans (fun _ => rfl) (fun t =>
      (sliceRows t handle direction ["operand"] budget 12).map Relation.analysisRunId)
      (fun db₁ h₁ => (h₁.conforms hu).reads_graph h₁.runsNamed db₁.constraints) hq)
  | guards handle budget =>
    exact plain (afterEnsure_evidenced h hu hans (fun _ => rfl) (fun t => guardsReads t handle budget)
      (fun db₁ h₁ => (h₁.conforms hu).reads_guards hu h₁.runsNamed db₁.constraints) hq)
  | expand handle =>
    obtain ⟨o, ho, rfl⟩ := respond_ok hq
    exact expand_evidenced h hu hans ho
  | context handle budget =>
    obtain ⟨o, ho, rfl⟩ := respond_ok hq
    obtain ⟨db₁, db₂, rfl, rfl, h₃, hens, e', he', hev⟩ := context_evidenced h hu hans ho
    obtain ⟨hrun, _⟩ := hans.ensured hens
    obtain ⟨e, he⟩ := ensure_entity hens he'
    refine ⟨e, he, ?_, hev.nodup, fun _ run hrun' => hev.closed run ?_⟩
    · rw [← h.artifact_eq hu hrun he he']
      exact hev.head
    · rw [← h₃]
      exact hrun'
  | traceReturn handle selector budgetNodes budgetDepth detail includes =>
    obtain ⟨o, ho, rfl⟩ := respond_ok hq
    obtain ⟨db₁, req, selector', ht⟩ := Query.perform_trace hq
    obtain ⟨e, he, hhead, hnodup, hclosed⟩ := ht.evidenced h hu hans
    obtain ⟨hkind, hsel, hnodes, hdepth⟩ : SinkKind.ret = req.sinkKind ∧ selector = selector' ∧
        budgetNodes = req.budgetNodes ∧ budgetDepth = req.budgetDepth := by
      simpa [Query.trace] using ht.trace
    subst hsel hnodes hdepth
    rw [← hkind] at hclosed
    exact ⟨e, he, hhead, hnodup, hclosed⟩
  | traceStores handle budgetNodes budgetDepth detail includes =>
    obtain ⟨o, ho, rfl⟩ := respond_ok hq
    obtain ⟨db₁, req, selector', ht⟩ := Query.perform_trace hq
    obtain ⟨e, he, hhead, hnodup, hclosed⟩ := ht.evidenced h hu hans
    obtain ⟨hkind, hsel, hnodes, hdepth⟩ : SinkKind.store = req.sinkKind ∧ "all" = selector' ∧
        budgetNodes = req.budgetNodes ∧ budgetDepth = req.budgetDepth := by
      simpa [Query.trace] using ht.trace
    subst hsel hnodes hdepth
    rw [← hkind] at hclosed
    exact ⟨e, he, hhead, hnodup, hclosed⟩

end Covered

/-! ## 13. A return traced with room for one node -/

namespace Uncollected

/-- `ret ptr %p`, without a source location. -/
def main : Function :=
  { Collision.function "main" with
    arguments := [⟨"p", "ptr", "ptr %p"⟩]
    blocks :=
      [{ name := "entry"
         body := []
         terminator := { Collision.instruction "ret" with operands := [.argument 0] }
         terminatorKind := .other
         successors := [] }]
    successors_lt := by decide }

def module : Module := { Collision.module with functions := [main] }

/-- `trace-return f0 --budget-nodes n`. -/
def query (n : Int) : Query := .traceReturn Collision.f0 "all" n 12 "summary" []

def draw (_ _ : Nat) : MaterializeDraw := Collision.draw "a"

def call (n : Int) : Database × Except Thrown Response :=
  (query n).perform Sample.environment (singleAdapter module).functionGraph draw
    (singleCatalogued module)

def reads (n : Int) : List (Option String) :=
  (query n).reads Sample.environment (singleAdapter module).functionGraph draw
    (singleCatalogued module)

/-- The run of the analysis. -/
def run : String := (draw 0 0).claim.runId

/-- An answer that does not name the run. -/
def omits : Except Thrown Response → Bool
  | .ok out => run ∉ out.evidence
  | .error _ => false

theorem unambiguous : (Contents.single module).Unambiguous := by
  have hnames : ∀ G ∈ module.functions, G.name ≠ "f0" := by decide
  intro _ K F hF _ J hJ G hG
  have hlt : K < 1 := (List.getElem?_eq_some_iff.mp hF).1
  obtain rfl : K = 0 := by omega
  exact hnames G (List.mem_of_getElem? hG)

end Uncollected

open Uncollected in
/-- **The run of the returned operand is left out**: the operand is read from a row of the run,
    and no other row of the function is collected. -/
theorem evidence_left_out :
    History (Contents.single module) (singleCatalogued module) ∧
      ∃ db' out, call 1 = (db', .ok out) ∧ some run ∈ reads 1 ∧ run ∉ out.evidence := by
  have hreads : some run ∈ reads 1 := by decide +kernel
  have homits : omits (call 1).2 = true := by decide +kernel
  refine ⟨singleCatalogued_history module, ?_⟩
  generalize call 1 = answer at homits ⊢
  obtain ⟨db', e | out⟩ := answer
  · cases homits
  · exact ⟨db', out, rfl, hreads, of_decide_eq_true homits⟩

open Uncollected in
/-- With room for a second node the operand is an edge of the slice, and its run is named. -/
theorem evidence_closed_wider :
    ∃ db' out, call 2 = (db', .ok out) ∧ some run ∈ reads 2 ∧ run ∈ out.evidence := by
  have hreads : some run ∈ reads 2 := by decide +kernel
  have hok : (call 2).2.toBool = true := by decide +kernel
  generalize h : call 2 = answer at hok ⊢
  obtain ⟨db', e | out⟩ := answer
  · cases hok
  · obtain ⟨_, _, _, _, hclosed⟩ := evidence_closed (singleCatalogued_history module) unambiguous
      (single_answered module _) h
    exact ⟨db', out, rfl, hreads, hclosed (.inl ⟨by decide, by decide⟩) run hreads⟩

end Irez
