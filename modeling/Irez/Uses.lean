/-
  File:      Irez/Uses.lean
  Subject:   When `uses` has every operand that is an entity (service.cpp 1136-1177, 214-236).

  `uses` reads the operand relations stored. It materializes the function of the entity it is
  asked about, and no other; a function or a global is an operand in other functions, whose
  relations are there only where these have been analysed.

  * `Selected.operandRows_perm` -- the operands of an instruction in a stream;
  * `Contents.Shows.operandRows` -- those in the tables, once its function is shown;
  * `Conforms.recorded_after` -- a materialization on demand records the entity's own function
    and no other;
  * `uses_complete_iff` -- the answer is complete exactly where every function with such an
    operand has been analysed;
  * `Unread` -- a global of two functions, of which one was analysed.
-/
import Irez.History
import Irez.Currency

open Irez.Basis

namespace Irez

/-! ## 1. Operands of a module -/

namespace Selected

variable {S : Selected} {T : PostDominatorTree}

/-- The instruction `i` has the entity with the local key `l` as its operand `o`. -/
def OperandAt (S : Selected) (i o : Nat) (l : String) : Prop :=
  ∃ I V, S.function.instructions[i]? = some I ∧ I.operands[o]? = some V ∧ S.name V = l

theorem mem_numberedInstructions {I : Instruction} {i : Nat}
    (hI : S.function.instructions[i]? = some I) :
    ∃ Iis ∈ S.numberedInstructions, Iis.1 = (I, i) := by
  have hm : (I, i) ∈ S.numberedInstructions.map (·.1) := by
    rw [numberedInstructions_map]
    exact List.mem_zipIdx_iff_getElem?.mpr hI
  exact List.mem_map.mp hm

/-- The stream declares every instruction. -/
theorem instructionEntity_graph {I : Instruction} {i : Nat}
    (hI : S.function.instructions[i]? = some I) :
    S.instructionEntity I i ∈ entityRecords (S.graph T).records := by
  obtain ⟨Iis, hIis, he⟩ := mem_numberedInstructions hI
  obtain ⟨⟨B, b, first⟩, hu, hmem⟩ := List.mem_flatMap.mp hIis
  rw [graph_entities]
  refine List.mem_append_left _ (instructionEntity_mem hu ?_)
  have hm := List.mem_map_of_mem (f := (·.1)) hmem
  rw [blockInstructions_map, he] at hm
  exact hm

/-- **The operand relations that leave an instruction** are those of its operands. -/
theorem operandRows_perm {I : Instruction} {i : Nat}
    (hI : S.function.instructions[i]? = some I) :
    ((relationRecords (S.graph T).records).filter fun q =>
        q.kind = "llvm.operand" && q.src = S.instructionKey i).Perm
      (I.operands.zipIdx.map (S.operandRelation S.name I i)) := by
  obtain ⟨Iis, hIis, he⟩ := mem_numberedInstructions hI
  have hout := outgoing_operands (T := T) hIis
  rw [he] at hout
  rw [← hout]
  exact (List.perm_insertionSort _ _).symm

/-- The operand relations of a stream are those of its instructions. -/
theorem mem_operands {q : RelationRecord} (hq : q ∈ relationRecords (S.graph T).records)
    (hk : q.kind = "llvm.operand") :
    ∃ i I, S.function.instructions[i]? = some I ∧ q.src = S.instructionKey i := by
  obtain ⟨Iis, hIis, hown⟩ := mem_ownRelations hq (by rw [hk]; decide) (by rw [hk]; decide)
  exact ⟨Iis.1.2, Iis.1.1, instruction_of_mem hIis, ownRelations_src hIis hown⟩

end Selected

/-! ## 2. Operands in the tables -/

section Operands

variable {C : Contents} {t : Tables} {a : Artifact} {K i : Nat} {F : Function} {p : Publish}
  {I : Instruction}

/-- The row of an entity inside a function that is shown. -/
theorem Contents.Shows.entity_row (h : C.Shows t a K F p) (hc : t.Constraints) {e : EntityRecord}
    (he : e ∈ p.entities) (hi : e.interior = true) :
    t.entity (entityId a e.localKey) = some (p.ownedRow e) ∧ p.ownedRow e ∈ t.entities := by
  obtain ⟨hm, _⟩ := (h.snapshot.entities (p.ownedRow e)).mpr ⟨e, he, hi, rfl⟩
  refine ⟨?_, hm⟩
  rw [← h.entityId_eq]
  exact lookup_self hc.entityKey hm

theorem Contents.Shows.instruction_row (h : C.Shows t a K F p) (hc : t.Constraints)
    (hI : F.instructions[i]? = some I) :
    t.entity (entityId a (Selected.instructionKey ⟨C.module a.id, K, F⟩ i)) =
        some (p.ownedRow (Selected.instructionEntity ⟨C.module a.id, K, F⟩ I i)) ∧
      p.ownedRow (Selected.instructionEntity ⟨C.module a.id, K, F⟩ I i) ∈ t.entities := by
  refine h.entity_row hc (e := Selected.instructionEntity ⟨C.module a.id, K, F⟩ I i) ?_ ?_
  · rw [h.entities_eq]
    exact Selected.instructionEntity_graph (S := ⟨C.module a.id, K, F⟩) hI
  · rfl

/-- The relations that leave an entity of a function are that function's. -/
theorem Contents.Shows.owned_relation (h : C.Shows t a K F p) (hs : Sound .scoped t) {x : Entity}
    (hx : x ∈ t.entities) (ho : x.functionId = some p.target.handle) {r : Relation}
    (hr : r ∈ t.relations) (hsrc : r.srcId = x.id) : ∃ q ∈ p.relations, r = p.snapshotRelation q := by
  obtain ⟨f, hf, hown⟩ := hs.relations r hr
  obtain rfl : p.target.handle = f := hown x hx (.inl hsrc.symm) _ ho
  have hm : r ∈ t.relationsOf p.target.handle := List.mem_filter.mpr ⟨hr, decide_eq_true hf⟩
  rw [h.snapshot.relations] at hm
  obtain ⟨q, hq, rfl⟩ := List.mem_map.mp hm
  exact ⟨q, hq, rfl⟩

/-- **The operand rows of an instruction**: one for each of its operands. -/
theorem Contents.Shows.operandRows (h : C.Shows t a K F p) (hs : Sound .scoped t)
    (hc : t.Constraints) (hI : F.instructions[i]? = some I) :
    (t.relations.filter fun r => r.kind = "llvm.operand" &&
        r.srcId = entityId a (Selected.instructionKey ⟨C.module a.id, K, F⟩ i)).Perm
      ((I.operands.zipIdx.map (Selected.operandRelation ⟨C.module a.id, K, F⟩
        (Selected.name ⟨C.module a.id, K, F⟩) I i)).map p.snapshotRelation) := by
  obtain ⟨_, hrow⟩ := h.instruction_row hc hI
  -- the rows lie in the snapshot of the function
  have hown : (t.relations.filter fun r => r.kind = "llvm.operand" &&
        r.srcId = entityId a (Selected.instructionKey ⟨C.module a.id, K, F⟩ i)) =
      (t.relationsOf p.target.handle).filter fun r => r.kind = "llvm.operand" &&
        r.srcId = entityId a (Selected.instructionKey ⟨C.module a.id, K, F⟩ i) := by
    unfold Tables.relationsOf
    rw [List.filter_filter]
    refine List.filter_congr fun r hr => ?_
    by_cases hsrc : r.srcId = entityId a (Selected.instructionKey ⟨C.module a.id, K, F⟩ i)
    · obtain ⟨q, hq, rfl⟩ := h.owned_relation hs hrow rfl hr (hsrc.trans (h.entityId_eq _).symm)
      have hm : p.snapshotRelation q ∈ t.relationsOf p.target.handle := by
        rw [h.snapshot.relations]
        exact List.mem_map_of_mem hq
      have hf := of_decide_eq_true (List.mem_filter.mp hm).2
      simp [hf]
    · simp [hsrc]
  rw [hown, h.snapshot.relations, List.filter_map]
  refine List.Perm.map _ ?_
  rw [h.relations_eq]
  refine List.Perm.trans (List.Perm.of_eq ?_)
    (Selected.operandRows_perm (S := ⟨C.module a.id, K, F⟩) (T := C.postDominators F) hI)
  refine List.filter_congr fun q hq => ?_
  have hiff : (p.snapshotRelation q).srcId =
      entityId a (Selected.instructionKey ⟨C.module a.id, K, F⟩ i) ↔
        q.src = Selected.instructionKey ⟨C.module a.id, K, F⟩ i := by
    rw [h.srcId]
    refine ⟨fun heq => entityId_right_inj ?_ ?_ heq, fun heq => congrArg _ heq⟩
    · exact (Selected.relation_declared (S := ⟨C.module a.id, K, F⟩) (C.graphs F) hq).2.1.colon_mem
    · exact (Selected.instructionKey_scoped _ i).colon_mem
  show (decide (q.kind = _) && decide (_ = _)) = _
  rw [decide_eq_decide.mpr hiff]

/-- Each operand has its own position. -/
theorem operandRelations_keyed (S : Selected) (I : Instruction) (i : Nat) :
    Keyed RelationRecord.ordinal (I.operands.zipIdx.map (S.operandRelation S.name I i)) := by
  have hmap : (I.operands.zipIdx.map (S.operandRelation S.name I i)).map RelationRecord.ordinal =
      (List.range' 0 I.operands.length).map fun o : Nat => some (o : Int) := by
    rw [← List.zipIdx_map_snd 0 I.operands, List.map_map, List.map_map]
    rfl
  unfold Keyed
  rw [hmap]
  refine List.Nodup.map (fun o o' he => ?_) List.nodup_range'
  exact Int.ofNat.inj (Option.some.inj he)

/-! ## 3. Answers -/

/-- The row of the operand `o` of the instruction `i`. -/
def useRowOf (a : Artifact) (S : Selected) (i o : Nat) (I : Instruction) : UseRow :=
  ⟨entityId a (S.instructionKey i), some o, some I.opcode, some I.text⟩

/-- The rows that name the operand `o` of an instruction. -/
def useRowsAt (rows : List UseRow) (user : String) (o : Nat) : List UseRow :=
  rows.filter fun row => row.user = user && row.ordinal = some (o : Int)

/-- **A shown function has one row for each operand** that is the entity. -/
theorem Contents.Shows.uses_row (h : C.Shows t a K F p) (hs : Sound .scoped t)
    (hc : t.Constraints) {o : Nat} {V : Value} {l : String} (hI : F.instructions[i]? = some I)
    (hV : I.operands[o]? = some V) (hl : Selected.name ⟨C.module a.id, K, F⟩ V = l) :
    useRowsAt ((t.operandUses (entityId a l)).map t.useRow)
        (entityId a (Selected.instructionKey ⟨C.module a.id, K, F⟩ i)) o =
      [useRowOf a ⟨C.module a.id, K, F⟩ i o I] := by
  obtain ⟨hrow, _⟩ := h.instruction_row hc hI
  let S : Selected := ⟨C.module a.id, K, F⟩
  let q := S.operandRelation S.name I i (V, o)
  have hq : q ∈ I.operands.zipIdx.map (S.operandRelation S.name I i) :=
    List.mem_map_of_mem (List.mem_zipIdx_iff_getElem?.mpr hV)
  have huse : t.useRow (p.snapshotRelation q) = useRowOf a S i o I := by
    have hsrc : (p.snapshotRelation q).srcId = entityId a (S.instructionKey i) := h.srcId q
    unfold Tables.useRow
    rw [hsrc, hrow]
    rfl
  -- the rows of the answer are rows of the instruction
  have hrows : (t.relations.filter fun r => r.dstId = entityId a l && r.kind = "llvm.operand" &&
        (t.entity r.srcId).isSome).filter
          (fun r => r.srcId = entityId a (S.instructionKey i) && r.ordinal = some (o : Int)) =
      (t.relations.filter fun r => r.kind = "llvm.operand" &&
        r.srcId = entityId a (S.instructionKey i)).filter
          fun r => r.dstId = entityId a l && r.ordinal = some (o : Int) := by
    rw [List.filter_filter, List.filter_filter]
    refine List.filter_congr fun r _ => ?_
    by_cases hsrc : r.srcId = entityId a (S.instructionKey i)
    · have hsome : (t.entity r.srcId).isSome = true := by
        rw [hsrc, hrow]
        rfl
      rw [Bool.eq_iff_iff]
      simp only [Bool.and_eq_true, decide_eq_true_eq]
      exact ⟨fun ⟨⟨_, ho⟩, ⟨hd, hk⟩, _⟩ => ⟨⟨hd, ho⟩, hk, hsrc⟩,
        fun ⟨⟨hd, ho⟩, hk, _⟩ => ⟨⟨hsrc, ho⟩, ⟨hd, hk⟩, hsome⟩⟩
    · simp [hsrc]
  have hone : ((I.operands.zipIdx.map (S.operandRelation S.name I i)).map p.snapshotRelation).filter
      (fun r => r.dstId = entityId a l && r.ordinal = some (o : Int)) = [p.snapshotRelation q] := by
    rw [List.filter_map, ← List.map_singleton]
    refine congrArg _ ((List.filter_congr fun q' hq' => ?_).trans
      ((operandRelations_keyed S I i).filter_eq hq))
    by_cases ho : q'.ordinal = q.ordinal
    · obtain rfl := List.inj_on_of_nodup_map (operandRelations_keyed S I i) hq' hq ho
      have hdst : (p.snapshotRelation q).dstId = entityId a l := (h.dstId q).trans (congrArg _ hl)
      have hord : (p.snapshotRelation q).ordinal = some (o : Int) := rfl
      simp [hdst, hord]
    · have hord : ¬ (p.snapshotRelation q').ordinal = some (o : Int) := ho
      simp [hord, ho]
  unfold useRowsAt
  rw [List.filter_map, ← huse, ← List.map_singleton]
  refine congrArg _ (List.perm_singleton.mp ?_)
  refine ((List.perm_insertionSort _ _).filter _).trans ?_
  refine (List.Perm.of_eq hrows).trans ?_
  exact ((h.operandRows hs hc hI).filter _).trans (List.Perm.of_eq hone)

end Operands

/-! ## 4. What a materialization on demand records -/

/-- The function of `ensure_materialized`. -/
def Entity.home (e : Entity) : Option String := if e.kind = "function" then some e.id else e.functionId

section Ensure

variable {C : Contents} {db db' : Database} {env : Environment}
  {graph : String → String → Outcome} {d : MaterializeDraw} {handle f : String}

/-- A statement that keeps every run and every name records nothing. -/
theorem recorded_before {p : Materialization → Bool} {g : Materialization → Materialization}
    (hg : ∀ m, (g m).functionId = m.functionId ∧ (g m).analysisRunId = m.analysisRunId)
    {ms : List Materialization}
    (h : ∃ m ∈ updateWhere p g ms, m.functionId = f ∧ m.analysisRunId ≠ none) :
    ∃ m ∈ ms, m.functionId = f ∧ m.analysisRunId ≠ none := by
  obtain ⟨m', hm', hid, hrun⟩ := h
  obtain ⟨m, hm, rfl⟩ := mem_updateWhere.mp hm'
  refine ⟨m, hm, ?_⟩
  split at hid
  · rename_i hp
    rw [if_pos hp, (hg m).2] at hrun
    exact ⟨(hg m).1.symm.trans hid, hrun⟩
  · rename_i hp
    rw [if_neg hp] at hrun
    exact ⟨hid, hrun⟩

/-- **A `materialize` call records no other function than its own.** -/
theorem Conforms.recorded_materialize (h : Conforms C db.toTables) {refresh : Bool}
    {result : Except Thrown Materialized}
    (hm : Irez.materialize env graph d handle refresh db = (db', result)) (hr : db'.Recorded f) :
    db.Recorded f ∨ f = handle := by
  have hclaim : ∀ {target : Target} {db₁ : Database},
      Irez.claimFunction env.claim d.claim target db = .ok db₁ → db₁.Recorded f → db.Recorded f := by
    intro target db₁ hc hr₁
    obtain ⟨_, _, _, _, ht⟩ := claimFunction_ok hc
    rw [ht] at hr₁
    exact @recorded_before f _ (Materialization.claimed d.claim.owner d.claim.claimedAt)
      (fun _ => ⟨rfl, rfl⟩) _ hr₁
  cases materialize_run hm with
  | answered | refused => exact .inl hr
  | abandoned _ hc => exact .inl (hclaim hc hr)
  | failed _ hc hfail =>
    rw [failFunction_ok hfail] at hr
    exact .inl (hclaim hc (@recorded_before f _ (Materialization.failed _) (fun _ => ⟨rfl, rfl⟩) _ hr))
  | @published target db₁ _ records hent hc _ hpub =>
    obtain ⟨K, F, m, hh, _, hkey⟩ := h.enter db.constraints hent
    obtain ⟨_, hnamed⟩ := h.sound.enter db.constraints hent
    have hmem : target.function ∈ db₁.entities := by
      obtain ⟨_, _, _, _, ht⟩ := claimFunction_ok hc
      rw [ht]
      exact hh.entity
    have hname := Publish.functionId_of_named
      (p := Publish.of target d.claim.runId d.claim.owner d.publish records) db₁.constraints hmem
      hh.cols.2.1.symm hnamed hh.cols.2.2.1
    obtain ⟨_, hmats, _⟩ := Publish.exec_tested hpub
    rw [hname] at hmats
    by_cases hf : f = handle
    · exact .inr hf
    · refine .inl (hclaim hc ?_)
      obtain ⟨m', hm', hid, hrun⟩ := hr
      rw [hmats] at hm'
      obtain ⟨m₁, hm₁, rfl⟩ := mem_updateWhere.mp hm'
      have hne : m₁.functionId ≠ target.handle := by
        rw [(enter_analyse hent).2.1]
        intro he
        refine hf (hid.symm.trans ?_)
        split
        · exact he
        · exact he
      refine ⟨m₁, hm₁, ?_⟩
      split at hid
      · rename_i hp
        rw [Bool.and_eq_true, decide_eq_true_eq] at hp
        exact absurd hp.1 hne
      · rename_i hp
        rw [if_neg hp] at hrun
        exact ⟨hid, hrun⟩

theorem Conforms.recorded_ensure (h : Conforms C db.toTables) {result : Except Thrown Unit}
    (he : ensureMaterialized env graph d handle db = (db', result)) (hr : db'.Recorded f) :
    db.Recorded f ∨ ∃ e, db.entity handle = some e ∧ e.home = some f := by
  cases ensureMaterialized_run he with
  | nothing => exact .inl hr
  | @materialized e _ _ _ hentity hfunction _ _ hrun =>
    rcases h.recorded_materialize hrun hr with hr | rfl
    · exact .inl hr
    · refine .inr ⟨e, hentity, ?_⟩
      have hid : e.id = handle := key_of_lookup hentity
      unfold Entity.home
      rw [hid]
      exact hfunction

/-- A current row has a run. -/
theorem Contents.Holds.run_of_current {a : Artifact} {K : Nat} {F : Function} {e : Entity}
    {m : Materialization} (hh : C.Holds db.toTables a K F e m)
    (hcur : db.Current e.id) : m.analysisRunId ≠ none := by
  intro hnone
  obtain ⟨x, hx⟩ := List.exists_mem_of_ne_nil kMaterializationCapabilities (by decide)
  obtain ⟨c, hc, _⟩ := (hcur.manifest x.1 (some x.2)).mpr ⟨x.2, rfl, hx⟩
  obtain ⟨hmem, hp⟩ := List.mem_filter.mp hc
  rw [Bool.and_eq_true] at hp
  have hcap : c ∈ db.capabilitiesOf e.id := List.mem_filter.mpr ⟨hmem, hp.1⟩
  rw [(hh.absent hnone).capabilities] at hcap
  exact absurd hcap List.not_mem_nil

/-- **After a materialization on demand the entity's own function is recorded**, if it has a
    body. -/
theorem Conforms.ensured (h : Conforms C db.toTables) (hu : C.Unambiguous) {adapter : Adapter}
    (hans : C.Answered db.toTables adapter) {a : Artifact} {K : Nat} {F : Function} {e x : Entity}
    {m : Materialization} (hentity : db.entity handle = some e) (hhome : e.home = some x.id)
    (hh : C.Holds db.toTables a K F x m) (hd : F.isDeclaration = false)
    (he : ensureMaterialized env adapter.functionGraph d handle db = (db', .ok ())) :
    db'.Recorded x.id := by
  have hid : e.id = handle := key_of_lookup hentity
  unfold Entity.home at hhome
  rw [hid] at hhome
  have hrow := h.materialization_eq db.constraints hh
  have hstatus : (db.materialization x.id).any (·.status = .declarationOnly) = false := by
    rw [hrow, Option.any_some, decide_eq_false_iff_not]
    exact (hh.defined hd).2
  by_cases hcur : (db.materialization x.id).any (cacheCurrent db.toTables) = true
  · rw [ensureMaterialized_of_current hentity hhome hcur] at he
    obtain rfl := congrArg Prod.fst he
    exact ⟨m, hh.row, hh.handle, hh.run_of_current ((cacheCurrent_iff db.constraints).mp hcur)⟩
  · unfold ensureMaterialized at he
    simp only [hentity, hhome, hstatus, hcur] at he
    generalize hm : Irez.materialize env adapter.functionGraph d x.id true db = call at he
    obtain ⟨db₁, e₁ | response⟩ := call
    · cases he
    · cases he
      cases materialize_run hm with
      | answered hent =>
        exfalso
        unfold Irez.enter at hent
        split at hent
        · cases hent
        · split at hent
          · cases hent
          · simp only [Bool.not_true, Bool.false_and, hstatus] at hent
            cases hent
      | published =>
        obtain ⟨b, J, G, y, m', hh', hy, _, _, hafter, _⟩ := h.analysed hu
          (fun target hent => hans.graphs target (mem_of_lookup (enter_analyse hent).2.2)) hm
        exact ⟨_, hafter.row, hafter.handle.trans ((hafter.cols.1.trans hh'.cols.1.symm).trans hy),
          Option.some_ne_none _⟩

end Ensure

/-! ## 5. Completeness -/

/-- The answer has one row for every operand, in a function with a body, that is the entity
    with the local key `l`. -/
def Contents.UsesComplete (C : Contents) (a : Artifact) (l : String) (rows : List UseRow) : Prop :=
  ∀ K F, (C.module a.id).functions[K]? = some F → F.isDeclaration = false → ∀ i o I V,
    F.instructions[i]? = some I → I.operands[o]? = some V →
    Selected.name ⟨C.module a.id, K, F⟩ V = l →
      useRowsAt rows (entityId a (Selected.instructionKey ⟨C.module a.id, K, F⟩ i)) o =
        [useRowOf a ⟨C.module a.id, K, F⟩ i o I]

section Completeness

variable {C : Contents} {db db' : Database} {a : Artifact} {K : Nat} {F : Function}
  {e : Entity} {d : MaterializeDraw} {env : Environment}

/-- The function an entity belongs to. -/
theorem Conforms.home_holds (h : Conforms C db.toTables) (ha : db.Stores a) (he : e ∈ db.entities)
    (hF : (C.module a.id).functions[K]? = some F)
    (hhome : e.home = some (entityId a (functionLocal (functionKey K)))) :
    ∃ x m, C.Holds db.toTables a K F x m ∧ e.home = some x.id := by
  have hfunction : ∃ x ∈ db.entities, x.id = entityId a (functionLocal (functionKey K)) := by
    unfold Entity.home at hhome
    split at hhome
    · exact ⟨e, he, Option.some.inj hhome⟩
    · by_contra hno
      refine (h.owners _ fun x hx hid _ => hno ⟨x, hx, hid⟩).entities e he hhome
  obtain ⟨x, hx, hid⟩ := hfunction
  have hpair := (h.id_iff db.constraints ha hx (colon_mem_functionLocal _)).mp hid
  obtain ⟨hart, hlocal⟩ := Prod.mk.inj hpair
  obtain ⟨F', m, hh⟩ := h.holds db.constraints ha hx hart hlocal
  obtain rfl : F' = F := Option.some.inj (hh.function.symm.trans hF)
  exact ⟨x, m, hh, hhome.trans (congrArg some hid.symm)⟩

/-- A row of the answer comes from a function with a record. -/
theorem Conforms.recorded_of_use (h : Conforms C db.toTables) (hu : C.Unambiguous)
    (ha : db.Stores a) {handle : String} {i : Nat} {row : UseRow}
    (hrow : row ∈ (db.operandUses handle).map db.useRow)
    (huser : row.user = entityId a (Selected.instructionKey ⟨C.module a.id, K, F⟩ i)) :
    db.Recorded (entityId a (functionLocal (functionKey K))) := by
  obtain ⟨r, hr, rfl⟩ := List.mem_map.mp hrow
  obtain ⟨hmem, hcond⟩ := List.mem_filter.mp ((List.perm_insertionSort _ _).mem_iff.mp hr)
  simp only [Bool.and_eq_true, decide_eq_true_eq] at hcond
  obtain ⟨b, J, G, p, hp, q, hq, rfl⟩ := h.relation_shown hu hmem
  rw [hp.relations_eq] at hq
  obtain ⟨j, _, _, hsrc⟩ := Selected.mem_operands hq hcond.1.2
  have hid : entityId b q.src = _ := (hp.srcId q).symm.trans huser
  rw [hsrc] at hid
  obtain ⟨_, hsha, hkey⟩ := h.handle_inj db.constraints hp.stores ha
    (Selected.instructionKey_scoped _ j).colon_mem (Selected.instructionKey_scoped _ i).colon_mem hid
  obtain ⟨rfl, _⟩ := instructionKey_inj hkey
  rw [← entityId_congr hsha, ← hp.publishes.handle]
  exact hp.recorded

theorem Sound.entity_id {T : Territory} {t : Tables} (h : Sound T t) (hc : t.Constraints)
    (ha : t.Stores a) (he : e ∈ t.entities) (hart : e.artifactId = a.id) :
    e.id = entityId a e.localKey := by
  obtain ⟨b, hb, hbid, hsha⟩ := ha
  rw [(h.id_of_entity hc hb he (hart.trans hbid.symm)).1, entityId_congr hsha]

/-- The entities inside a function are operands in that function only. -/
theorem Conforms.home_of_use (h : Conforms C db.toTables) (hu : C.Unambiguous) (hst : db.Stores a)
    (he : e ∈ db.entities) (hart : e.artifactId = a.id) {f : String} (ho : e.functionId = some f)
    {i o : Nat} (hop : Selected.OperandAt ⟨C.module a.id, K, F⟩ i o e.localKey) :
    e.home = some (entityId a (functionLocal (functionKey K))) := by
  obtain ⟨b, J, G, p, hp, hhandle⟩ := h.shown_of_owner hu fun hbare => hbare.entities e he ho
  obtain ⟨e₀, he₀, hi, rfl⟩ := (hp.snapshot.entities e).mp ⟨he, by rw [hhandle]; exact ho⟩
  -- the key carries the key of the function that owns the entity
  have hin : .entity e₀ ∈ functionGraph C.postDominators (C.module b.id) (functionKey J) := by
    rw [hp.publishes.entities] at he₀
    exact mem_entityRecords.mp he₀
  have hkinds : e₀.kind ≠ "function" ∧ e₀.kind ≠ "global" := by
    unfold EntityRecord.interior at hi
    simpa using hi
  have hlocal : ScopedTo (functionKey J) e₀.localKey :=
    (functionGraph_scoped hp.select hin).interior_iff.mp hkinds
  obtain ⟨I, V, hI, hV, hl⟩ := hop
  have hdecl : Selected.Declared ⟨C.module a.id, K, F⟩ (C.postDominators F) e₀.localKey := by
    have hl' : Selected.name ⟨C.module a.id, K, F⟩ V = e₀.localKey := hl
    rw [← hl']
    exact .value (Selected.value_of_instruction (S := ⟨C.module a.id, K, F⟩) hI
      (List.mem_append_left _ (List.mem_of_getElem? hV)))
  have hK : J = K := by
    rcases hdecl with hm | ⟨f, _, hf⟩
    · obtain ⟨e₁, he₁, hkey⟩ := List.mem_map.mp hm
      rw [← hkey] at hlocal
      have hscoped₁ : e₁.Scoped (functionKey K) := by
        have hin₁ := mem_entityRecords.mp he₁
        cases Selected.emitted_of_mem_graph hin₁ (fun _ => Record.noConfusion) with
        | entity hb => exact Selected.bodyEntities_scoped ⟨C.module a.id, K, F⟩ e₁ hb
        | operand V c => exact Selected.operandEntity_scoped ⟨C.module a.id, K, F⟩ V c
      rcases hscoped₁ with ⟨_, hf⟩ | ⟨_, hg⟩ | ⟨_, _, hs⟩
      · exact absurd hf hlocal.ne_functionLocal
      · exact absurd hg hlocal.not_global
      · exact functionKey_inj (ScopedTo.inj (colon_not_mem_functionKey J)
          (colon_not_mem_functionKey K) hlocal hs)
    · exact absurd hf hlocal.ne_functionLocal
  obtain rfl := hK
  have hhome : (p.ownedRow e₀).home = some p.target.handle := if_neg hkinds.1
  have hb : b.id = a.id := hp.publishes.id.symm.trans hart
  have hsha := Tables.Stores.sha_eq db.constraints hp.stores hst hb
  rw [hhome, ← entityId_congr hsha, ← hp.publishes.handle]

/-- An answer within its budget. -/
theorem usesQuery_ok {graph : String → String → Outcome} {handle : String} {budget : Int}
    {out : Envelope (List UseRow)}
    (hq : usesQuery env graph d handle budget db = (db', .ok out)) (hcut : out.truncated = false) :
    ensureMaterialized env graph d handle db = (db', .ok ()) ∧ out.unknowns = [] ∧
      out.result = (db'.operandUses handle).map db'.useRow := by
  obtain ⟨hensure, hread⟩ := afterEnsure_ok hq
  unfold readUses at hread
  obtain ⟨entity, _, hread⟩ := bind_eq_ok hread
  obtain ⟨inv, _, hread⟩ := bind_eq_ok hread
  cases hread
  exact ⟨hensure, rfl, congrArg _ (visible_whole hcut)⟩

/-- The function with the handle `K` has been analysed, or is the entity's own. -/
def Tables.Loaded (t : Tables) (a : Artifact) (e : Entity) (K : Nat) : Prop :=
  t.Recorded (entityId a (functionLocal (functionKey K))) ∨
    e.home = some (entityId a (functionLocal (functionKey K)))

/-- A function that is loaded is shown after the materialization on demand. -/
theorem Conforms.loaded_shows (h : Conforms C db.toTables) (hu : C.Unambiguous) {adapter : Adapter}
    (hans : C.Answered db.toTables adapter) (hst : db.Stores a) (he : e ∈ db.entities)
    (hF : (C.module a.id).functions[K]? = some F) (hd : F.isDeclaration = false)
    (hload : db.Loaded a e K) (hconf : Conforms C db'.toTables) (hst' : db'.Stores a)
    (hrun : Relation.ReflTransGen (Attempt C) db db')
    (hensure : ensureMaterialized env adapter.functionGraph d e.id db = (db', .ok ())) :
    ∃ p, C.Shows db'.toTables a K F p := by
  have hrec : db'.Recorded (entityId a (functionLocal (functionKey K))) := by
    rcases hload with hr | hhome
    · exact hr.history hrun
    · obtain ⟨x, m, hh, hx⟩ := h.home_holds hst he hF hhome
      rw [← hh.cols.1]
      exact h.ensured hu hans (lookup_self db.constraints.entityKey he) hx hh hd hensure
  obtain ⟨F', p, hp⟩ := hconf.shows hu db'.constraints hst' hrec
  obtain rfl : F' = F := Option.some.inj (hp.function.symm.trans hF)
  exact ⟨p, hp⟩

/-- Where every function with such an operand is loaded, the answer has every use. -/
theorem History.uses_complete (h : History C db) (hu : C.Unambiguous) {adapter : Adapter}
    (hans : C.Answered db.toTables adapter) (hst : db.Stores a) (he : e ∈ db.entities)
    (hart : e.artifactId = a.id) {budget : Int} {out : Envelope (List UseRow)}
    (hq : usesQuery env adapter.functionGraph d e.id budget db = (db', .ok out))
    (hcut : out.truncated = false)
    (hload : ∀ K F, (C.module a.id).functions[K]? = some F → F.isDeclaration = false →
      (∃ i o, Selected.OperandAt ⟨C.module a.id, K, F⟩ i o e.localKey) → db.Loaded a e K) :
    C.UsesComplete a e.localKey out.result := by
  obtain ⟨hensure, _, hresult⟩ := usesQuery_ok hq hcut
  have hconf := h.conforms hu
  have hstep : EnsureStep env adapter.functionGraph (fun _ _ => d) db db' :=
    ⟨0, 0, e.id, congrArg Prod.fst hensure⟩
  obtain ⟨hrun, _⟩ := hans.ensure hstep
  have hconf' := (h.tail hrun).conforms hu
  intro K F hF hd i o I V hI hV hl
  obtain ⟨p, hp⟩ := hconf.loaded_shows hu hans hst he hF hd
    (hload K F hF hd ⟨i, o, I, V, hI, hV, hl⟩) hconf' (hst.history hrun) hrun hensure
  rw [hresult, hconf.sound.entity_id db.constraints hst he hart]
  exact hp.uses_row hconf'.sound db'.constraints hI hV hl

/-- **When `uses` is complete.** After every history, an answer that is not cut off names no
    unknowns, and it has every operand that is the entity exactly where each function with
    such an operand has been analysed, or is the entity's own. -/
theorem uses_complete_iff (h : History C db) (hu : C.Unambiguous) {adapter : Adapter}
    (hans : C.Answered db.toTables adapter) (hst : db.Stores a) (he : e ∈ db.entities)
    (hart : e.artifactId = a.id) {budget : Int} {out : Envelope (List UseRow)}
    (hq : usesQuery env adapter.functionGraph d e.id budget db = (db', .ok out))
    (hcut : out.truncated = false) :
    out.unknowns = [] ∧ (C.UsesComplete a e.localKey out.result ↔
      ∀ K F, (C.module a.id).functions[K]? = some F → F.isDeclaration = false →
        (∃ i o, Selected.OperandAt ⟨C.module a.id, K, F⟩ i o e.localKey) → db.Loaded a e K) := by
  obtain ⟨hensure, hunknowns, hresult⟩ := usesQuery_ok hq hcut
  refine ⟨hunknowns, ?_, h.uses_complete hu hans hst he hart hq hcut⟩
  rintro hcomplete K F hF hd ⟨i, o, I, V, hI, hV, hl⟩
  have hstep : EnsureStep env adapter.functionGraph (fun _ _ => d) db db' :=
    ⟨0, 0, e.id, congrArg Prod.fst hensure⟩
  obtain ⟨hrun, _⟩ := hans.ensure hstep
  have hone := hcomplete K F hF hd i o I V hI hV hl
  rw [hresult] at hone
  have hmem : useRowOf a ⟨C.module a.id, K, F⟩ i o I ∈
      useRowsAt ((db'.operandUses e.id).map db'.useRow) _ o := hone ▸ List.mem_singleton.mpr rfl
  have hrec := ((h.tail hrun).conforms hu).recorded_of_use hu (hst.history hrun)
    (List.mem_filter.mp hmem).1 rfl
  rcases (h.conforms hu).recorded_ensure hensure hrec with hr | ⟨e', he', hhome⟩
  · exact .inl hr
  · obtain rfl := Option.some.inj ((lookup_self db.constraints.entityKey he).symm.trans he')
    exact .inr hhome

/-- **An entity inside a function has all its uses** in an answer that is not cut off. -/
theorem uses_complete_within (h : History C db) (hu : C.Unambiguous) {adapter : Adapter}
    (hans : C.Answered db.toTables adapter) (hst : db.Stores a) (he : e ∈ db.entities)
    (hart : e.artifactId = a.id) (ho : e.functionId ≠ none) {budget : Int}
    {out : Envelope (List UseRow)}
    (hq : usesQuery env adapter.functionGraph d e.id budget db = (db', .ok out))
    (hcut : out.truncated = false) : C.UsesComplete a e.localKey out.result := by
  obtain ⟨f, hf⟩ := Option.ne_none_iff_exists'.mp ho
  refine h.uses_complete hu hans hst he hart hq hcut fun K F _ _ hop => .inr ?_
  obtain ⟨i, o, hop⟩ := hop
  exact (h.conforms hu).home_of_use hu hst he hart hf hop

end Completeness

/-! ## 6. A global of two functions -/

namespace Unread

/-- A function that loads the global. -/
def load (name : String) : Function :=
  { Collision.function name with
    blocks :=
      [{ name := "entry"
         body := [{ Collision.instruction "load" with operands := [.global 0] }]
         terminator := Collision.instruction "ret"
         terminatorKind := .other
         successors := [] }]
    successors_lt := by decide }

def module : Module :=
  { Collision.module with functions := [load "f", load "g"], globals := [default] }

/-- `f0` materialized. -/
def first : Database :=
  (materialize Sample.environment (singleAdapter module).functionGraph (Collision.draw "a")
    Collision.f0 false (singleCatalogued module)).1

/-- `f1` materialized too. -/
def both : Database :=
  (materialize Sample.environment (singleAdapter module).functionGraph (Collision.draw "b")
    Collision.f1 false first).1

def global : String := entityId Sample.artifact "global:g0"

/-- `uses global:g0 --budget 10`. -/
def answer (db : Database) : Database × Except Thrown (Envelope (List UseRow)) :=
  usesQuery Sample.environment (singleAdapter module).functionGraph (Collision.draw "c") global 10 db

/-- An answer that is not cut off, with the given number of rows. -/
def rows (n : Nat) : Except Thrown (Envelope (List UseRow)) → Bool
  | .ok out => !out.truncated && decide (out.unknowns = []) && decide (out.result.length = n)
  | .error _ => false

/-- The global's row. -/
def row : Entity :=
  entityRow Sample.artifact
    { kind := "global", localKey := "global:g0", ordinal := none, name := some "", opcode := none,
      llvmType := some "", exactText := some "", attributes := [] }

theorem first_history : History (Contents.single module) first := by
  have hcall : materialize Sample.environment (singleAdapter module).functionGraph
      (Collision.draw "a") Collision.f0 false (singleCatalogued module) = (first, _) := rfl
  exact (singleCatalogued_history module).tail
    (.single ((single_answered module _).materialize hcall).1)

theorem both_history : History (Contents.single module) both := by
  have hcall : materialize Sample.environment (singleAdapter module).functionGraph
      (Collision.draw "b") Collision.f1 false first = (both, _) := rfl
  exact first_history.tail (.single ((single_answered module _).materialize hcall).1)

theorem unambiguous : (Contents.single module).Unambiguous := by
  have hnames : ∀ G ∈ module.functions, G.name ≠ "f1" := by decide
  intro _ K F hF _ J hJ G hG
  have hlt : K < 2 := (List.getElem?_eq_some_iff.mp hF).1
  obtain rfl : K = 1 := by omega
  exact hnames G (List.mem_of_getElem? hG)

end Unread

open Unread in
/-- **A use in a function that was not analysed is left out**, and the answer does not say so. -/
theorem uses_incomplete :
    History (Contents.single module) first ∧ row ∈ first.entities ∧ row.id = global ∧
      ∃ db' out, Unread.answer first = (db', .ok out) ∧ out.truncated = false ∧ out.unknowns = [] ∧
        ¬ (Contents.single module).UsesComplete Sample.artifact row.localKey out.result := by
  have hrow : row ∈ first.entities := by decide +kernel
  have hone : rows 1 (Unread.answer first).2 = true := by decide +kernel
  refine ⟨first_history, hrow, rfl, ?_⟩
  generalize Unread.answer first = call at hone ⊢
  obtain ⟨db', e | out⟩ := call
  · cases hone
  · simp only [rows, Bool.and_eq_true, Bool.not_eq_true', decide_eq_true_eq] at hone
    obtain ⟨⟨hcut, hunknowns⟩, hlen⟩ := hone
    refine ⟨db', out, rfl, hcut, hunknowns, fun hcomplete => ?_⟩
    -- two functions have a row each, and there is one row
    have h0 := hcomplete 0 (load "f") rfl rfl 0 0 _ (.global 0) rfl rfl (by decide +kernel)
    have h1 := hcomplete 1 (load "g") rfl rfl 0 0 _ (.global 0) rfl rfl (by decide +kernel)
    obtain ⟨r, hr⟩ := List.length_eq_one_iff.mp hlen
    rw [hr] at h0 h1
    have hmem : ∀ {u : String} {x : UseRow}, useRowsAt [r] u 0 = [x] → x = r := by
      intro u x hx
      have hm : x ∈ useRowsAt [r] u 0 := hx ▸ List.mem_singleton.mpr rfl
      exact List.mem_singleton.mp (List.mem_filter.mp hm).1
    have hsame := congrArg UseRow.user ((hmem h0).trans (hmem h1).symm)
    revert hsame
    decide +kernel

open Unread in
/-- With both functions analysed the answer has both uses. -/
theorem uses_complete_both :
    ∃ db' out, Unread.answer both = (db', .ok out) ∧ out.truncated = false ∧
      (Contents.single module).UsesComplete Sample.artifact row.localKey out.result := by
  have hrow : row ∈ both.entities := by decide +kernel
  have hst : both.Stores Sample.artifact := by
    unfold Tables.Stores
    decide +kernel
  have hrec : ∀ f ∈ [Collision.f0, Collision.f1],
      ∃ m ∈ both.materializations, m.functionId = f ∧ m.analysisRunId ≠ none := by decide +kernel
  have htwo : rows 2 (Unread.answer both).2 = true := by decide +kernel
  have hiff := @uses_complete_iff (Contents.single module) both (Unread.answer both).1 Sample.artifact row
    (Collision.draw "c") Sample.environment both_history unambiguous _ (single_answered module _) hst
    hrow rfl 10
  have hanswer : usesQuery Sample.environment (singleAdapter module).functionGraph
      (Collision.draw "c") row.id 10 both = Unread.answer both := rfl
  generalize Unread.answer both = call at htwo hiff hanswer ⊢
  obtain ⟨db', e | out⟩ := call
  · cases htwo
  · simp only [rows, Bool.and_eq_true, Bool.not_eq_true', decide_eq_true_eq] at htwo
    obtain ⟨⟨hcut, _⟩, _⟩ := htwo
    refine ⟨db', out, rfl, hcut, (hiff hanswer hcut).2.mpr fun K F hF _ _ => .inl ?_⟩
    have hlt : K < 2 := (List.getElem?_eq_some_iff.mp hF).1
    refine hrec _ ?_
    obtain rfl | rfl : K = 0 ∨ K = 1 := by omega
    · exact List.mem_cons_self
    · exact List.mem_cons_of_mem _ (List.mem_singleton.mpr rfl)

end Irez
