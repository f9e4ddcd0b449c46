/-
  File:      Irez/Boundaries.lean
  Subject:   Where a trace and `expand` see the boundary of a direct call (service.cpp
             1520-1574, 1976-2015).

  `expand` reads the attribute `external` of the call's relation, written when the caller was
  analysed; a trace reads the materialization of the callee's entity, which catalogs and
  analyses write.

  * `Contents.CallOf` -- the relation of a call instruction and what it says of the callee;
  * `Conforms.boundary_of`, `Conforms.expansion_of` -- what either command makes of it;
  * `trace_expand_agree` -- they agree in every state of a history;
  * `Disagreement` -- a declaration that bears the key of a later function: analysing that
    function makes the declaration's entity an analysed one.
-/
import Irez.History
import Irez.CallReports

open Irez.Basis

namespace Irez

/-! ## 1. Calls of a module -/

/-- Every direct call of the module leads to one of its functions. -/
def Module.Closed (M : Module) : Prop :=
  ∀ F ∈ M.functions, ∀ I ∈ F.instructions, ∀ c, I.call.bind Selected.callee = some c →
    c < M.functions.length

def Contents.Closed (C : Contents) : Prop := ∀ id, (C.module id).Closed

namespace Selected

variable {S : Selected} {T : PostDominatorTree}

/-- The relation of a call. -/
def callRelation (S : Selected) (i c : Nat) : RelationRecord :=
  relation "llvm.calls" (S.instructionKey i) (S.name (.function c)) none
    [("external", .bool (S.isDeclaration c))]

theorem mem_callRelations {κ : Value → String} {I : Instruction} {key : String}
    {q : RelationRecord} :
    q ∈ S.callRelations κ I key ↔ ∃ c, I.call.bind callee = some c ∧
      q = relation "llvm.calls" key (κ (.function c)) none
        [("external", .bool (S.isDeclaration c))] := by
  unfold callRelations
  cases I.call.bind callee with
  | none => simp
  | some c => simp

/-- **The call relations of a stream** are those of its direct calls, one for each. -/
theorem mem_calls {q : RelationRecord} :
    (q ∈ relationRecords (S.graph T).records ∧ q.kind = "llvm.calls") ↔
      ∃ I i c, S.function.instructions[i]? = some I ∧ I.call.bind callee = some c ∧
        q = S.callRelation i c := by
  have hown : ∀ Iis ∈ S.numberedInstructions, ∀ q ∈ S.ownRelations S.name Iis,
      q.kind = "llvm.calls" → q ∈ S.callRelations S.name Iis.1.1 (S.instructionKey Iis.1.2) := by
    intro Iis hI q hq hk
    rcases List.mem_append.mp hq with hq | hq
    · exfalso
      rcases List.mem_append.mp hq with hq | hq
      · obtain ⟨⟨V, o⟩, _, hq⟩ := List.mem_flatMap.mp hq
        rcases List.mem_append.mp hq with hq | hq
        · rw [List.mem_singleton.mp hq] at hk
          exact absurd hk (show "llvm.operand" ≠ "llvm.calls" by decide)
        · split at hq
          · rw [List.mem_singleton.mp hq] at hk
            exact absurd hk (show "llvm.references-global" ≠ "llvm.calls" by decide)
          · exact absurd hq List.not_mem_nil
      · rw [(successors_of_mem hI hq).1] at hk
        exact absurd hk (by decide)
    · exact hq
  constructor
  · rintro ⟨hq, hk⟩
    obtain ⟨Iis, hI, hq⟩ := mem_ownRelations hq (by rw [hk]; decide) (by rw [hk]; decide)
    obtain ⟨c, hc, rfl⟩ := mem_callRelations.mp (hown Iis hI q hq hk)
    exact ⟨Iis.1.1, Iis.1.2, c, instruction_of_mem hI, hc, rfl⟩
  · rintro ⟨I, i, c, hI, hc, rfl⟩
    have hm : (I, i) ∈ S.numberedInstructions.map (·.1) := by
      rw [numberedInstructions_map]
      exact List.mem_zipIdx_iff_getElem?.mpr hI
    obtain ⟨Iis, hIis, he⟩ := List.mem_map.mp hm
    have hfilter := filter_relations (T := T) (k := "llvm.calls") (by decide) (by decide) hIis
    have hmem : S.callRelation i c ∈ (S.ownRelations S.name Iis).filter
        fun q => q.kind = "llvm.calls" := by
      refine List.mem_filter.mpr ⟨List.mem_append_right _ ?_, decide_eq_true rfl⟩
      rw [he]
      exact mem_callRelations.mpr ⟨c, hc, rfl⟩
    rw [← hfilter] at hmem
    exact ⟨(List.mem_filter.mp hmem).1, rfl⟩

theorem name_function {c : Nat} (h : c < S.module.functions.length) :
    S.name (.function c) = functionLocal (Irez.functionKey c) := by
  have hk : S.keys (.function c) = some (functionLocal (Irez.functionKey c)) := if_pos h
  unfold name named
  rw [hk]
  rfl

end Selected

/-! ## 2. Calls in the tables -/

/-- The row of the call that the instruction `i` of the function `K` makes to the function `c`. -/
structure Contents.CallOf (C : Contents) (a : Artifact) (K : Nat) (F : Function) (i c : Nat)
    (r : Relation) : Prop where
  function : (C.module a.id).functions[K]? = some F
  call : ∃ I, F.instructions[i]? = some I ∧ I.call.bind Selected.callee = some c
  callee : c < (C.module a.id).functions.length
  srcId : r.srcId = entityId a (Selected.instructionKey ⟨C.module a.id, K, F⟩ i)
  dstId : r.dstId = entityId a (functionLocal (functionKey c))
  external : r.external = Selected.isDeclaration ⟨C.module a.id, K, F⟩ c

section Calls

variable {C : Contents} {t : Tables} {a : Artifact} {K i c : Nat} {F : Function} {p : Publish}
  {r : Relation}

theorem Contents.Shows.callOf (h : C.Shows t a K F p) (hcl : C.Closed) {I : Instruction}
    (hI : F.instructions[i]? = some I) (hc : I.call.bind Selected.callee = some c) :
    C.CallOf a K F i c
      (p.snapshotRelation (Selected.callRelation ⟨C.module a.id, K, F⟩ i c)) := by
  have hlt : c < (C.module a.id).functions.length :=
    hcl a.id F (List.mem_of_getElem? h.function) I (List.mem_of_getElem? hI) c hc
  refine ⟨h.function, ⟨I, hI, hc⟩, hlt, h.srcId _, (h.dstId _).trans ?_, ?_⟩
  · exact congrArg (entityId a) (Selected.name_function hlt)
  · show decide (List.lookup "external" [("external",
      AttrValue.bool (Selected.isDeclaration ⟨C.module a.id, K, F⟩ c))] = some (.bool true)) = _
    cases Selected.isDeclaration ⟨C.module a.id, K, F⟩ c with
    | false => rfl
    | true => rfl

/-- **Every call row of the tables is the row of a call.** -/
theorem Conforms.call_row (h : Conforms C t) (hu : C.Unambiguous) (hcl : C.Closed)
    (hr : r ∈ t.relations) (hk : r.kind = "llvm.calls") :
    ∃ a K F p i c, C.Shows t a K F p ∧ C.CallOf a K F i c r := by
  obtain ⟨a, K, F, p, hp, q, hq, rfl⟩ := h.relation_shown hu hr
  rw [hp.relations_eq] at hq
  obtain ⟨I, i, c, hI, hc, rfl⟩ := Selected.mem_calls.mp ⟨hq, hk⟩
  exact ⟨a, K, F, p, i, c, hp, hp.callOf hcl hI hc⟩

/-- Every call of a function that is shown has its row. -/
theorem Contents.Shows.mem_call (h : C.Shows t a K F p) (hcl : C.Closed)
    (hcall : ∃ I, F.instructions[i]? = some I ∧ I.call.bind Selected.callee = some c) :
    ∃ r ∈ t.relations, r.kind = "llvm.calls" ∧ C.CallOf a K F i c r := by
  obtain ⟨I, hI, hc⟩ := hcall
  refine ⟨_, h.mem_relations ?_, rfl, h.callOf hcl hI hc⟩
  rw [h.relations_eq]
  exact (Selected.mem_calls.mpr ⟨I, i, c, hI, hc, rfl⟩).1

/-- **Two rows of one call instruction say the same.** -/
theorem Conforms.call_unique (h : Conforms C t) (hc : t.Constraints) {b : Artifact} {J j d : Nat}
    {G : Function} {r' : Relation} (ha : t.Stores a) (hb : t.Stores b)
    (hr : C.CallOf a K F i c r) (hr' : C.CallOf b J G j d r') (hs : r.srcId = r'.srcId) :
    r.dstId = r'.dstId ∧ r.external = r'.external := by
  obtain ⟨hid, hsha, hkey⟩ := h.handle_inj hc ha hb (Selected.instructionKey_scoped _ i).colon_mem
    (Selected.instructionKey_scoped _ j).colon_mem (hr.srcId.symm.trans (hs.trans hr'.srcId))
  obtain ⟨rfl, rfl⟩ := instructionKey_inj hkey
  have hF := hr'.function
  rw [← hid, hr.function] at hF
  obtain rfl := Option.some.inj hF
  obtain ⟨I, hI, hIc⟩ := hr.call
  obtain ⟨I', hI', hId⟩ := hr'.call
  obtain rfl := Option.some.inj (hI.symm.trans hI')
  obtain rfl := Option.some.inj (hIc.symm.trans hId)
  refine ⟨?_, ?_⟩
  · rw [hr.dstId, hr'.dstId, entityId_congr hsha]
  · rw [hr.external, hr'.external, hid]

/-- **The callee of a call row**: a function, and a declaration where the row says external. -/
theorem Conforms.callee_of (h : Conforms C t) (hc : t.Constraints) (ha : t.Stores a)
    (hr : r ∈ t.relations) (hcall : C.CallOf a K F i c r) :
    ∃ x, t.entity r.dstId = some x ∧ x.kind = "function" ∧
      (r.external = true ↔ x.materialization = .declarationOnly) := by
  obtain ⟨_, _, hdst, _⟩ := hc.relationRefs r hr
  obtain ⟨x, hx, hxid⟩ := List.mem_map.mp hdst
  have hpair := (h.id_iff hc ha hx (colon_mem_functionLocal _)).mp (hxid.trans hcall.dstId)
  obtain ⟨hart, hlocal⟩ := Prod.mk.inj hpair
  obtain ⟨G, m, hh⟩ := h.holds hc ha hx hart hlocal
  refine ⟨x, ?_, hh.cols.2.2.2.1, ?_⟩
  · rw [← hxid]
    exact lookup_self hc.entityKey hx
  · have hdecl : r.external = G.isDeclaration := by
      rw [hcall.external]
      show ((C.module a.id).functions[c]?).any (·.isDeclaration) = _
      rw [hh.function, Option.any_some]
    rw [hdecl]
    cases hd : G.isDeclaration with
    | true =>
      refine ⟨fun _ => ?_, fun _ => rfl⟩
      rw [(hh.declared hd).1]
      rfl
    | false => exact ⟨fun hf => absurd hf Bool.false_ne_true, fun hm => absurd hm (hh.defined hd).1⟩

/-! ## 3. What the commands make of a call -/

/-- **What a trace reports of a call row.** -/
theorem Conforms.boundary_of (h : Conforms C t) (hc : t.Constraints) (ha : t.Stores a)
    (hr : r ∈ t.relations) (hcall : C.CallOf a K F i c r) (call : String) :
    (t.callBoundary call r).target = r.dstId ∧
      (t.callBoundary call r).status = (if r.external then .external else .internal) ∧
      (t.callBoundary call r).expandable = !r.external := by
  obtain ⟨x, hx, _, hiff⟩ := h.callee_of hc ha hr hcall
  unfold Tables.callBoundary
  rw [hx]
  cases he : r.external with
  | true => simp [hiff.mp he]
  | false =>
    have hm : x.materialization ≠ .declarationOnly := fun hm => by
      rw [hiff.mpr hm] at he
      cases he
    simp [hm]

/-- **What `expand` decides on a call.** -/
theorem Conforms.expansion_of (h : Conforms C t) (hu : C.Unambiguous) (hcl : C.Closed)
    (hc : t.Constraints) (ha : t.Stores a) (hr : r ∈ t.relations) (hk : r.kind = "llvm.calls")
    (hcall : C.CallOf a K F i c r) :
    ∃ e, t.entity r.srcId = some e ∧
      (r.external = true → ∃ row, expansion t e r.srcId = .external row) ∧
      (r.external = false → expansion t e r.srcId = .materialize r.dstId) := by
  obtain ⟨_, hsrc, _, _⟩ := hc.relationRefs r hr
  obtain ⟨e, he, heid⟩ := List.mem_map.mp hsrc
  have hlook : t.entity r.srcId = some e := by
    rw [← heid]
    exact lookup_self hc.entityKey he
  -- the source is an instruction, and no function
  have hkind : e.kind ≠ "function" := by
    intro hf
    have hscoped := Selected.instructionKey_scoped ⟨C.module a.id, K, F⟩ i
    have hpair := (h.id_iff hc ha he hscoped.colon_mem).mp (heid.trans hcall.srcId)
    obtain ⟨_, hlocal⟩ := Prod.mk.inj hpair
    obtain ⟨_, _, _, _, hh⟩ := h.functions e he hf
    exact hscoped.ne_functionLocal (hlocal.symm.trans hh.cols.2.2.1)
  have hrow : (t.callRow r.srcId).isSome := by
    unfold Tables.callRow
    rw [List.find?_isSome]
    obtain ⟨x, hx, _⟩ := h.callee_of hc ha hr hcall
    refine ⟨r, hr, ?_⟩
    simp [hk, hx]
  obtain ⟨row, hrow⟩ := Option.isSome_iff_exists.mp hrow
  have hmem : row ∈ t.relations := List.mem_of_find?_eq_some hrow
  have hcond := List.find?_some hrow
  simp only [Bool.and_eq_true, decide_eq_true_eq] at hcond
  obtain ⟨⟨hrs, hrk⟩, _⟩ := hcond
  obtain ⟨b, J, G, p, j, d, hp, hcall'⟩ := h.call_row hu hcl hmem hrk
  obtain ⟨hdst, hext⟩ := h.call_unique hc hp.stores ha hcall' hcall hrs
  obtain ⟨x, hx, hxk, _⟩ := h.callee_of hc hp.stores hmem hcall'
  have hexp : expansion t e r.srcId =
      if row.external then .external row else .materialize row.dstId := by
    unfold expansion
    rw [if_neg hkind, hrow]
    simp [hx, hxk]
  refine ⟨e, hlook, fun hx => ⟨row, ?_⟩, fun hx => ?_⟩
  · rw [hexp, hext, if_pos hx]
  · rw [hexp, hext, hx, hdst]
    rfl

end Calls

/-! ## 4. Agreement -/

/-- **A trace and `expand` agree on a call**: what the trace reported of it is what `expand`
    decides in the tables `t`. -/
structure CallBoundary.Agrees (b : CallBoundary) (t : Tables) (e : Entity) : Prop where
  internal : (b.status = .internal ∧ b.expandable = true) ↔
    expansion t e b.call = .materialize b.target
  external : (b.status = .external ∧ b.expandable = false) ↔
    ∃ row, expansion t e b.call = .external row

/-- The relations and the entities of the tables agree on what is declared only. -/
def Tables.DeclarationsAgree (t : Tables) : Prop :=
  ∀ r ∈ t.relations, r.kind = "llvm.calls" →
    ∃ x, t.entity r.dstId = some x ∧ (r.external = true ↔ x.materialization = .declarationOnly)

section Agreement

variable {C : Contents} {db db' : Database} {r : Relation}

/-- **What a trace has read of a call is what `expand` decides**, then and later. -/
theorem History.agrees (h : History C db) (hu : C.Unambiguous) (hcl : C.Closed)
    (hrun : Relation.ReflTransGen (Attempt C) db db') (hr : r ∈ db.relations)
    (hk : r.kind = "llvm.calls") :
    ∃ e, db'.entity r.srcId = some e ∧
      (db.callBoundary r.srcId r).Agrees db'.toTables e := by
  have hconf := h.conforms hu
  have hconf' := (h.tail hrun).conforms hu
  obtain ⟨a, K, F, p, i, c, hp, hcall⟩ := hconf.call_row hu hcl hr hk
  -- the function is still shown, so the row is still there
  have hst' : db'.Stores a := hp.stores.history hrun
  have hrec : db'.Recorded (entityId a (functionLocal (functionKey K))) := by
    rw [← hp.publishes.handle]
    exact hp.recorded.history hrun
  obtain ⟨F', p', hp'⟩ := hconf'.shows hu db'.constraints hst' hrec
  obtain rfl : F' = F := Option.some.inj (hp'.function.symm.trans hp.function)
  obtain ⟨r', hr', hk', hcall'⟩ := hp'.mem_call hcl hcall.call
  have hsrc : r'.srcId = r.srcId := hcall'.srcId.trans hcall.srcId.symm
  have hdst : r'.dstId = r.dstId := hcall'.dstId.trans hcall.dstId.symm
  have hext : r'.external = r.external := hcall'.external.trans hcall.external.symm
  obtain ⟨e, he, hyes, hno⟩ := hconf'.expansion_of hu hcl db'.constraints hst' hr' hk' hcall'
  obtain ⟨htarget, hstatus, hexpand⟩ :=
    hconf.boundary_of db.constraints hp.stores hr hcall r.srcId
  rw [hsrc, hext] at hyes
  rw [hsrc, hext, hdst] at hno
  refine ⟨e, hsrc ▸ he, ?_⟩
  cases hx : r.external with
  | true =>
    obtain ⟨row, hrow⟩ := hyes hx
    rw [hx] at hstatus hexpand
    refine ⟨⟨fun hc => ?_, fun hc => ?_⟩, ⟨fun _ => ?_, fun _ => ⟨hstatus, hexpand⟩⟩⟩
    · rw [hexpand] at hc
      exact absurd hc.2 (by decide)
    · rw [callBoundary_call, hrow] at hc
      cases hc
    · rw [callBoundary_call]
      exact ⟨row, hrow⟩
  | false =>
    have hm := hno hx
    rw [hx] at hstatus hexpand
    refine ⟨⟨fun _ => ?_, fun _ => ⟨hstatus, hexpand⟩⟩, ⟨fun hc => ?_, fun hc => ?_⟩⟩
    · rw [callBoundary_call, htarget]
      exact hm
    · rw [hexpand] at hc
      exact absurd hc.2 (by decide)
    · obtain ⟨row, hrow⟩ := hc
      rw [callBoundary_call, hm] at hrow
      cases hrow

theorem History.declarationsAgree (h : History C db) (hu : C.Unambiguous) (hcl : C.Closed) :
    db.DeclarationsAgree := by
  intro r hr hk
  have hconf := h.conforms hu
  obtain ⟨a, K, F, p, i, c, hp, hcall⟩ := hconf.call_row hu hcl hr hk
  obtain ⟨x, hx, _, hiff⟩ := hconf.callee_of db.constraints hp.stores hr hcall
  exact ⟨x, hx, hiff⟩

end Agreement

/-! ## 5. Traces -/

section Traces

variable {env : Environment} {graph : String → String → Outcome}
  {draw : Nat → Nat → MaterializeDraw} {db db' : Database}

/-- The tables of a turn are those of a state that the trace passes through. -/
theorem traceTurns_reached {req : TraceRequest} {i : Nat} {sinks : List Entity}
    {turns : List Traced} (h : traceSinks env graph draw req i sinks db = (db', .ok turns)) :
    ∀ turn ∈ traceTurns env graph draw req i sinks db, ∃ db₂ : Database,
      db₂.toTables = turn.tables ∧ Relation.ReflTransGen (EnsureStep env graph draw) db db₂ ∧
        Relation.ReflTransGen (EnsureStep env graph draw) db₂ db' := by
  induction sinks generalizing i db turns with
  | nil => exact fun turn hm => absurd hm List.not_mem_nil
  | cons sink rest ih =>
    intro turn hm
    unfold traceSinks at h
    unfold traceTurns at hm
    split at h
    · cases h
    · rename_i db₁ traced hsink
      split at h
      · cases h
      · rename_i db₂ more hmore
        cases h
        rw [hsink] at hm
        have hfirst := traceSink_steps hsink
        rcases List.mem_cons.mp hm with rfl | hm
        · exact ⟨db₁, rfl, hfirst, traceSinks_steps hmore⟩
        · obtain ⟨db₃, ht, hsteps, hrest⟩ := ih hmore turn hm
          exact ⟨db₃, ht, hfirst.trans hsteps, hrest⟩

theorem runTrace_reached {req : TraceRequest} {sinks : List Entity} {out : TraceEnvelope}
    (h : runTrace env graph (fun i => draw (i + 1)) req sinks db = (db', .ok out)) :
    ∀ turn ∈ traceTurns env graph (fun i => draw (i + 1)) req 0 sinks db, ∃ db₂ : Database,
      db₂.toTables = turn.tables ∧ Relation.ReflTransGen (EnsureStep env graph draw) db db₂ ∧
        Relation.ReflTransGen (EnsureStep env graph draw) db₂ db' := by
  have hmono : ∀ a b, EnsureStep env graph (fun i => draw (i + 1)) a b →
      EnsureStep env graph draw a b := fun a b ⟨i, j, handle, hab⟩ => ⟨i + 1, j, handle, hab⟩
  intro turn hm
  unfold runTrace at h
  split at h
  · cases h
  · rename_i db₁ turns hturns
    obtain rfl : db₁ = db' := congrArg Prod.fst h
    obtain ⟨db₂, ht, hfirst, hrest⟩ := traceTurns_reached hturns turn hm
    exact ⟨db₂, ht, Relation.ReflTransGen.mono hmono _ _ hfirst,
      Relation.ReflTransGen.mono hmono _ _ hrest⟩

theorem Query.turns_reached {q : Query} {out : TraceEnvelope}
    (h : q.perform env graph draw db = (db', .ok (.trace out))) :
    ∀ turn ∈ q.turns env graph draw db, ∃ db₂ : Database, db₂.toTables = turn.tables ∧
      Relation.ReflTransGen (EnsureStep env graph draw) db db₂ ∧
        Relation.ReflTransGen (EnsureStep env graph draw) db₂ db' := by
  intro turn hm
  cases q with
  | traceReturn handle selector budgetNodes budgetDepth detail includes =>
    obtain ⟨a, ha, hout⟩ := respond_ok h
    unfold Irez.traceReturn at ha
    split at ha
    · cases ha
    · rename_i db₁ req returns extra h₁
      simp only [Query.turns, h₁] at hm
      split at ha
      · cases ha
      · rename_i db₂ env₂ hrun
        obtain rfl : db₂ = db' := congrArg Prod.fst ha
        obtain ⟨db₃, ht, hfirst, hrest⟩ := runTrace_reached hrun turn hm
        exact ⟨db₃, ht, .head (afterEnsure_step h₁) hfirst, hrest⟩
  | traceStores handle budgetNodes budgetDepth detail includes =>
    obtain ⟨a, ha, hout⟩ := respond_ok h
    unfold Irez.traceStores at ha
    split at ha
    · cases ha
    · rename_i db₁ req stores h₁
      simp only [Query.turns, h₁] at hm
      obtain ⟨db₃, ht, hfirst, hrest⟩ := runTrace_reached ha turn hm
      exact ⟨db₃, ht, .head (afterEnsure_step h₁) hfirst, hrest⟩
  | _ => exact absurd hm List.not_mem_nil

/-- **A trace and `expand` agree on the boundary of every direct call** after every history
    of unambiguous modules: what a trace reports of a call is what `expand` of that call
    then does, and no relation says otherwise of its callee than the callee's entity. -/
theorem trace_expand_agree {C : Contents} (h : History C db) (hu : C.Unambiguous)
    (hcl : C.Closed) :
    db.DeclarationsAgree ∧
      ∀ (adapter : Adapter) (env : Environment) (draw : Nat → Nat → MaterializeDraw) (q : Query)
        (db' : Database) (out : TraceEnvelope), C.Answered db.toTables adapter →
        q.perform env adapter.functionGraph draw db = (db', .ok (.trace out)) →
        ∀ site ∈ out.result.sites, ∀ entries, site.callBoundaries = some entries →
          ∀ b ∈ entries, ∃ e, db'.entity b.call = some e ∧ b.Agrees db'.toTables e := by
  refine ⟨h.declarationsAgree hu hcl, ?_⟩
  intro adapter env draw q db' out hans hq site hsite entries hentries b hb
  obtain ⟨req, inv, extra, hsections, hread, _, hout⟩ := Query.turns_read hq
  have hcalls : "calls" ∈ req.sections := hsections _ (by decide)
  have hsites : out.result.sites =
      (q.turns env adapter.functionGraph draw db).map fun turn => turn.traced.site := by
    rw [hout]
    exact List.map_map
  rw [hsites] at hsite
  obtain ⟨turn, hturn, rfl⟩ := List.mem_map.mp hsite
  obtain ⟨db₂, ht, hfirst, hrest⟩ := Query.turns_reached hq turn hturn
  obtain ⟨hrun, hans₂⟩ := hans.ensures hfirst
  obtain ⟨hrun', _⟩ := hans₂.ensures hrest
  have hsome : turn.traced.site.callBoundaries =
      some (turn.tables.callEntries turn.traced.slice) := by
    rw [(hread turn hturn).site]
    exact if_pos hcalls
  obtain rfl := Option.some.inj (hsome.symm.trans hentries)
  obtain ⟨x, _, r, hr, rfl⟩ := mem_callEntries.mp hb
  obtain ⟨hmem, hcond⟩ := List.mem_filter.mp ((callRelations_perm turn.tables x.id).mem_iff.mp hr)
  rw [Bool.and_eq_true, decide_eq_true_eq, decide_eq_true_eq] at hcond
  rw [← ht] at hmem ⊢
  rw [callBoundary_call, ← hcond.1]
  exact (h.tail hrun).agrees hu hcl hrun' hmem hcond.2

end Traces

theorem unambiguous_dropped : (Contents.single DroppedCalls.module).Unambiguous := by
  intro _ K F hF hd J hJ
  -- the second function is declared only
  have hdecl : ∀ K, 0 < K → (DroppedCalls.module.functions[K]?).all (·.isDeclaration) = true := by
    intro K hK
    match K, hK with
    | 1, _ => rfl
    | _ + 2, _ => rfl
  have hall := hdecl K (Nat.zero_lt_of_lt hJ)
  have hF' : DroppedCalls.module.functions[K]? = some F := hF
  rw [hF', Option.all_some, hd] at hall
  cases hall

theorem closed_dropped : (Contents.single DroppedCalls.module).Closed := by
  have hall : ∀ F ∈ DroppedCalls.module.functions, ∀ I ∈ F.instructions,
      (I.call.bind Selected.callee).all (· < DroppedCalls.module.functions.length) = true := by
    decide
  intro _ F hF I hI c hc
  have h := hall F hF I hI
  rw [hc, Option.all_some] at h
  exact of_decide_eq_true h

open DroppedCalls in
/-- The sum of an indirect and a direct call, traced after its catalog. -/
theorem trace_expand_agree_direct :
    ∃ db' out, query.perform Sample.environment (singleAdapter module).functionGraph draw
        (singleCatalogued module) = (db', .ok (.trace out)) ∧
      ∀ site ∈ out.result.sites, ∀ entries, site.callBoundaries = some entries →
        ∀ b ∈ entries, ∃ e, db'.entity b.call = some e ∧ b.Agrees db'.toTables e := by
  have hsilent : silent (query.perform Sample.environment (singleAdapter module).functionGraph draw
      (singleCatalogued module)).2 = true := by decide +kernel
  have hagree := (trace_expand_agree (singleCatalogued_history module) unambiguous_dropped
    closed_dropped).2 (singleAdapter module) Sample.environment draw query
  generalize query.perform Sample.environment (singleAdapter module).functionGraph draw
    (singleCatalogued module) = answer at hsilent hagree ⊢
  obtain ⟨db', e | out⟩ := answer
  · cases hsilent
  · cases out with
    | trace out => exact ⟨db', out, rfl, hagree db' out (single_answered module _) rfl⟩
    | _ => cases hsilent

/-! ## 6. A declaration that bears the key of a later function -/

namespace Disagreement

/-- `%v = call @f1()`, `ret %v`. -/
def caller : Function :=
  { Collision.function "caller" with
    blocks :=
      [{ name := "entry"
         body :=
          [{ Collision.instruction "call" with
              operands := [.function 0], call := some (.function 0) }]
         terminator := { Collision.instruction "ret" with operands := [.instruction 0] }
         terminatorKind := .other
         successors := [] }]
    successors_lt := by decide }

theorem blockless_successors : ∀ B ∈ ([] : List Block), ∀ s ∈ B.successors, s < ([] : List Block).length := by
  simp

/-- `f0` is declared only, and named `f1`. -/
def module : Module :=
  { Collision.module with
    functions := [{ Collision.function "f1" with blocks := [], successors_lt := blockless_successors },
      Collision.function "g", caller] }

def f2 : String := entityId Sample.artifact (functionLocal "f2")

/-- The caller materialized. -/
def called : Database :=
  (materialize Sample.environment (singleAdapter module).functionGraph (Collision.draw "a") f2 false
    (singleCatalogued module)).1

/-- `f1` materialized after it. -/
def answered : Database :=
  (materialize Sample.environment (singleAdapter module).functionGraph (Collision.draw "b")
    Collision.f1 false called).1

/-- `trace-return f2`. -/
def query : Query := .traceReturn f2 "all" 100 12 "summary" []

def draw (_ _ : Nat) : MaterializeDraw := Collision.draw "c"

def trace : Database × Except Thrown Response :=
  query.perform Sample.environment (singleAdapter module).functionGraph draw answered

/-- The boundary is reported internal and `expand` of the call answers external. -/
def differs (t : Tables) (b : CallBoundary) : Bool :=
  decide (b.status = .internal) && b.expandable &&
    (t.entity b.call).any fun e =>
      match expansion t e b.call with
      | .external _ => true
      | _ => false

def disagrees (db : Database) : Except Thrown Response → Bool
  | .ok (.trace out) => out.result.sites.any fun site =>
      (site.callBoundaries.getD []).any (differs db.toTables)
  | _ => false

theorem answered_history : History (Contents.single module) answered := by
  have hcall : materialize Sample.environment (singleAdapter module).functionGraph
      (Collision.draw "a") f2 false (singleCatalogued module) = (called, _) := rfl
  have hanswer : materialize Sample.environment (singleAdapter module).functionGraph
      (Collision.draw "b") Collision.f1 false called = (answered, _) := rfl
  have hcalled := ((single_answered module _).materialize hcall).1
  have hanswered := ((single_answered module _).materialize hanswer).1
  exact (singleCatalogued_history module).tail ((Relation.ReflTransGen.single hcalled).tail hanswered)

/-- A relation says external of a function whose entity is an analysed one. -/
def split (t : Tables) : Bool :=
  t.relations.any fun r => decide (r.kind = "llvm.calls") && r.external &&
    (t.entity r.dstId).any fun x => decide (x.materialization ≠ .declarationOnly)

theorem not_agrees_of_differs {t : Tables} {b : CallBoundary} (h : differs t b = true) :
    ∃ e, t.entity b.call = some e ∧ ¬ b.Agrees t e := by
  unfold differs at h
  rw [Bool.and_eq_true, Bool.and_eq_true, decide_eq_true_eq] at h
  obtain ⟨⟨hstatus, hexpand⟩, hany⟩ := h
  cases he : t.entity b.call with
  | none =>
    rw [he] at hany
    cases hany
  | some e =>
    rw [he, Option.any_some] at hany
    refine ⟨e, rfl, fun hagree => ?_⟩
    rw [hagree.internal.mp ⟨hstatus, hexpand⟩] at hany
    cases hany

end Disagreement

open Disagreement in
/-- **A trace and `expand` disagree** on the call of `f0` once `f1` is materialized: the
    declaration's entity is an analysed one then, and the relation still says external. -/
theorem trace_expand_disagree :
    History (Contents.single module) answered ∧ ¬ answered.DeclarationsAgree ∧
      ∃ db' out, query.perform Sample.environment (singleAdapter module).functionGraph draw
          answered = (db', .ok (.trace out)) ∧
        ∃ site ∈ out.result.sites, ∃ entries, site.callBoundaries = some entries ∧
          ∃ b ∈ entries, ∃ e, db'.entity b.call = some e ∧ ¬ b.Agrees db'.toTables e := by
  have hsplit : split answered.toTables = true := by decide +kernel
  have htrace : disagrees trace.1 trace.2 = true := by decide +kernel
  refine ⟨answered_history, fun hagree => ?_, ?_⟩
  · obtain ⟨r, hr, hcond⟩ := List.any_eq_true.mp hsplit
    simp only [Bool.and_eq_true, decide_eq_true_eq] at hcond
    obtain ⟨⟨hk, hexternal⟩, hany⟩ := hcond
    obtain ⟨x, hx, hiff⟩ := hagree r hr hk
    rw [hx, Option.any_some, decide_eq_true_eq] at hany
    exact hany (hiff.mp hexternal)
  · unfold trace at htrace
    generalize query.perform Sample.environment (singleAdapter module).functionGraph draw
      answered = answer at htrace ⊢
    obtain ⟨db', e | out⟩ := answer
    · cases htrace
    · cases out with
      | trace out =>
        obtain ⟨site, hsite, hany⟩ := List.any_eq_true.mp htrace
        obtain ⟨b, hb, hdiffers⟩ := List.any_eq_true.mp hany
        cases hentries : site.callBoundaries with
        | none =>
          rw [hentries] at hb
          exact absurd hb List.not_mem_nil
        | some entries =>
          rw [hentries] at hb
          exact ⟨db', out, rfl, site, hsite, entries, hentries, b, hb, not_agrees_of_differs hdiffers⟩
      | _ => cases htrace

end Irez
