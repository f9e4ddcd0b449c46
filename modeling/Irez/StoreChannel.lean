/-
  File:      Irez/StoreChannel.lean
  Subject:   The store-channel hint of `trace-return` (service.cpp 1714-1768).

  The hint says of a function that every return is void or a constant null pointer. The scan
  behind it runs over the returns that the selector names, and takes a constant for null by the
  end of its text.

  * `Selected.WritesOnly` -- what the hint says, of the module;
  * `Contents.Shows.valueReturn` -- what the scan sees of a return, in the module;
  * `store_channel_true` -- the hint is true exactly where a selected return gives away that
    the function returns a value, if it does;
  * `MixedReturns` -- a null return selected in a function that also returns a pointer.
-/
import Irez.Projections
import Irez.Uses

open Irez.Basis

namespace Irez

/-! ## 1. Returns of a module -/

namespace Selected

variable (S : Selected)

/-- A constant null pointer: what is printed of it is its type and `null`. -/
def isNull : Value → Bool
  | .other i => decide ((S.valueText (.other i)).text = (S.valueText (.other i)).type ++ " null")
  | _ => false

/-- A constant whose text ends in `null`. -/
def looksNull : Value → Bool
  | .other i => "null".toList.isSuffixOf (S.valueText (.other i)).text.toList
  | _ => false

/-- A return of a value that is no constant null pointer. -/
def ReturnsValue (I : Instruction) : Prop :=
  I.opcode = "ret" ∧ ∃ V, I.operands[0]? = some V ∧ S.isNull V = false

/-- A return that the scan takes for one. -/
def LooksValued (I : Instruction) : Prop :=
  I.opcode = "ret" ∧ ∃ V, I.operands[0]? = some V ∧ S.looksNull V = false

def HasStore : Prop := ∃ I ∈ S.function.instructions, I.opcode = "store"

/-- **What the hint says**: the function stores, and every return is void or a constant null
    pointer. -/
def WritesOnly : Prop := S.HasStore ∧ ∀ I ∈ S.function.instructions, ¬ S.ReturnsValue I

variable {S}

theorem looksNull_of_isNull {V : Value} (h : S.isNull V = true) : S.looksNull V = true := by
  cases V with
  | other i =>
    have ht := of_decide_eq_true h
    show "null".toList.isSuffixOf (S.valueText (.other i)).text.toList = true
    rw [ht, String.toList_append, List.isSuffixOf_iff_suffix]
    exact List.IsSuffix.trans ⟨[' '], rfl⟩ (List.suffix_append _ _)
  | _ => cases h

theorem LooksValued.returnsValue {I : Instruction} (h : S.LooksValued I) : S.ReturnsValue I := by
  obtain ⟨hop, V, hV, hlooks⟩ := h
  refine ⟨hop, V, hV, Bool.eq_false_iff.mpr fun hnull => ?_⟩
  rw [looksNull_of_isNull hnull] at hlooks
  cases hlooks

/-- The entities of the body are no constants, and its instructions are those with an opcode. -/
theorem bodyEntities_kind {e : EntityRecord} (h : e ∈ S.bodyEntities) :
    e.kind ≠ "constant" ∧ ∀ op, e.opcode = some op →
      ∃ i I, S.function.instructions[i]? = some I ∧ e = S.instructionEntity I i := by
  rcases List.mem_append.mp h with h | h
  · rcases List.mem_cons.mp h with rfl | h
    · exact ⟨(by decide : "function" ≠ "constant"), fun op hop => by cases hop⟩
    · obtain ⟨_, _, rfl⟩ := List.mem_map.mp h
      exact ⟨(by decide : "argument" ≠ "constant"), fun op hop => by cases hop⟩
  · obtain ⟨⟨B, b, first⟩, hu, h⟩ := List.mem_flatMap.mp h
    rcases List.mem_cons.mp h with rfl | h
    · exact ⟨(by decide : "basic_block" ≠ "constant"), fun op hop => by cases hop⟩
    · obtain ⟨⟨I, i⟩, hI, rfl⟩ := List.mem_map.mp h
      refine ⟨(by decide : "instruction" ≠ "constant"), fun op hop => ⟨i, I, ?_, rfl⟩⟩
      have hmem : (I, i) ∈ S.function.instructions.zipIdx := by
        rw [← numbered_instructions]
        exact List.mem_flatMap.mpr ⟨_, hu, hI⟩
      exact List.mem_zipIdx_iff_getElem?.mp hmem

/-- A value with a key from the start is a function, or the body declares its key. -/
theorem keys_body {V : Value} {k : String} (h : S.keys V = some k) :
    (∃ j, k = functionLocal (Irez.functionKey j)) ∨
      ScopedTo (Irez.functionKey S.ordinal) k ∧ ∃ e ∈ S.bodyEntities, e.localKey = k := by
  have hbody : ∀ {k}, k ∈ S.bodyEntities.map (·.localKey) → ∃ e ∈ S.bodyEntities, e.localKey = k :=
    fun hk => List.mem_map.mp hk
  rcases keys_eq_some h with ⟨j, _, _, rfl⟩ | ⟨j, hj, _, rfl⟩ | ⟨j, hj, _, rfl⟩ | ⟨j, hj, _, rfl⟩
  · exact .inl ⟨j, rfl⟩
  · refine .inr ⟨S.argumentKey_scoped j, hbody ((bodyKeys_perm S).mem_iff.mpr
      (List.mem_append_left _ (List.mem_append_right _ (List.mem_map.mpr
        ⟨(S.function.arguments[j], j), ?_, rfl⟩))))⟩
    exact List.mem_zipIdx_iff_getElem?.mpr (List.getElem?_eq_getElem hj)
  · exact .inr ⟨S.blockKey_scoped j, hbody ((bodyKeys_perm S).mem_iff.mpr
      (List.mem_append_right _ (List.mem_append_left _ (List.mem_map.mpr
        ⟨_, mem_numbered hj, rfl⟩))))⟩
  · refine .inr ⟨S.instructionKey_scoped j, hbody ((bodyKeys_perm S).mem_iff.mpr
      (List.mem_append_right _ (List.mem_append_right _ (List.mem_map.mpr
        ⟨(S.function.instructions[j], j), ?_, rfl⟩))))⟩
    exact List.mem_zipIdx_iff_getElem?.mpr (List.getElem?_eq_getElem hj)

end Selected

/-! ## 2. Returns in the tables -/

section Rows

variable {C : Contents} {t : Tables} {a : Artifact} {K i : Nat} {F : Function} {p : Publish}
  {I : Instruction}

/-- The instructions of a function that is shown are its rows with an opcode. -/
theorem Contents.Shows.opcode_row (h : C.Shows t a K F p) {x : Entity} {op : String} :
    (x ∈ t.entities ∧ x.functionId = some p.target.handle ∧ x.opcode = some op) ↔
      ∃ i I, F.instructions[i]? = some I ∧ I.opcode = op ∧
        x = p.ownedRow (Selected.instructionEntity ⟨C.module a.id, K, F⟩ I i) := by
  constructor
  · rintro ⟨hx, ho, hop⟩
    obtain ⟨e, he, _, rfl⟩ := (h.snapshot.entities x).mp ⟨hx, ho⟩
    rw [h.entities_eq, Selected.graph_entities] at he
    rcases List.mem_append.mp he with he | he
    · obtain ⟨i, I, hI, rfl⟩ := (Selected.bodyEntities_kind he).2 op hop
      exact ⟨i, I, hI, Option.some.inj hop, rfl⟩
    · obtain ⟨_, _, rfl⟩ := List.mem_map.mp he
      cases hop
  · rintro ⟨i, I, hI, rfl, rfl⟩
    refine ⟨?_, rfl, rfl⟩
    refine ((h.snapshot.entities _).mpr ⟨_, ?_, rfl, rfl⟩).1
    rw [h.entities_eq]
    exact Selected.instructionEntity_graph (S := ⟨C.module a.id, K, F⟩) hI

/-- The test of the scan on the entity of an operand. -/
def Entity.looksNull (e : Entity) : Bool :=
  e.kind = "constant" && "null".toList.isSuffixOf (e.exactText.getD "").toList

/-- **The entity of a value** looks null exactly where the value does. -/
theorem Contents.Shows.value_row (h : C.Shows t a K F p) (hconf : Conforms C t) (hc : t.Constraints)
    {V : Value} (hV : V ∈ Selected.values ⟨C.module a.id, K, F⟩) {x : Entity} (hx : x ∈ t.entities)
    (hid : x.id = entityId a (Selected.name ⟨C.module a.id, K, F⟩ V)) :
    x.looksNull = Selected.looksNull ⟨C.module a.id, K, F⟩ V := by
  have hrow : ∀ e ∈ p.entities, e.interior = true →
      e.localKey = Selected.name ⟨C.module a.id, K, F⟩ V → x = p.ownedRow e := by
    intro e he hi hl
    obtain ⟨hentity, _⟩ := h.entity_row hc he hi
    rw [hl, ← hid] at hentity
    exact Option.some.inj ((lookup_self hc.entityKey hx).symm.trans hentity)
  have hnamed := Selected.named_name hV
  have hplain : ∀ {e : Entity}, e.kind ≠ "constant" → e.looksNull = false := by
    intro e hk
    unfold Entity.looksNull
    rw [decide_eq_false hk, Bool.false_and]
  rcases Selected.named_cases hnamed with hkey | hkey
  · -- functions, arguments, blocks and instructions
    have hother : Selected.looksNull ⟨C.module a.id, K, F⟩ V = false := by
      cases V with
      | other i => cases hkey
      | _ => rfl
    rw [hother]
    refine hplain ?_
    rcases Selected.keys_body hkey with ⟨j, hj⟩ | ⟨hscoped, e, he, hl⟩
    · rw [hj] at hid
      have hpair := (hconf.id_iff hc h.stores hx (colon_mem_functionLocal _)).mp hid
      obtain ⟨hart, hlocal⟩ := Prod.mk.inj hpair
      obtain ⟨_, _, hh⟩ := hconf.holds hc h.stores hx hart hlocal
      rw [hh.cols.2.2.2.1]
      decide
    · have hmem : e ∈ p.entities := by
        rw [h.entities_eq, Selected.graph_entities]
        exact List.mem_append_left _ he
      have hkinds := (Selected.bodyEntities_scoped _ e he).interior_iff.mpr (hl.symm ▸ hscoped)
      have hi : e.interior = true := by simp [EntityRecord.interior, hkinds.1, hkinds.2]
      rw [hrow e hmem hi hl]
      exact (Selected.bodyEntities_kind he).1
  · -- globals and constants
    have hmem : Selected.operandEntity ⟨C.module a.id, K, F⟩ V
        (Selected.name ⟨C.module a.id, K, F⟩ V) (Selected.freshKind ⟨C.module a.id, K, F⟩ V) ∈
          p.entities := by
      rw [h.entities_eq, Selected.graph_entities]
      exact List.mem_append_right _ (List.mem_map.mpr ⟨_, List.mem_reverse.mpr hkey, rfl⟩)
    cases V with
    | global j =>
      have hg := h.snapshot.globals _ hmem rfl
      have hrowid : (entityRow p.target.artifact (Selected.operandEntity ⟨C.module a.id, K, F⟩
          (.global j) (Selected.name ⟨C.module a.id, K, F⟩ (.global j)) "global")).id = x.id := by
        rw [hid]
        exact h.entityId_eq _
      have hsame := List.inj_on_of_nodup_map hc.entityKey hg hx hrowid
      refine hplain ?_
      rw [← hsame]
      exact (by decide : "global" ≠ "constant")
    | other j =>
      rw [hrow _ hmem rfl rfl]
      rfl
    | _ =>
      rw [hrow _ hmem rfl rfl]
      rfl

/-- The row that the scan reads for an instruction is that of its first operand. -/
theorem Contents.Shows.sinkOperand_iff (h : C.Shows t a K F p) (hs : Sound .scoped t)
    (hc : t.Constraints) (hI : F.instructions[i]? = some I) {r : Relation} :
    t.sinkOperand (entityId a (Selected.instructionKey ⟨C.module a.id, K, F⟩ i)) 0 = some r ↔
      ∃ V, I.operands[0]? = some V ∧ r = p.snapshotRelation (Selected.operandRelation
        ⟨C.module a.id, K, F⟩ (Selected.name ⟨C.module a.id, K, F⟩) I i (V, 0)) := by
  have hrows := h.operandRows hs hc hI
  have hmem : ∀ q, (q ∈ t.relations ∧ q.kind = "llvm.operand" ∧
      q.srcId = entityId a (Selected.instructionKey ⟨C.module a.id, K, F⟩ i) ∧
      q.ordinal = some 0) ↔
        ∃ V, I.operands[0]? = some V ∧ q = p.snapshotRelation (Selected.operandRelation
          ⟨C.module a.id, K, F⟩ (Selected.name ⟨C.module a.id, K, F⟩) I i (V, 0)) := by
    intro q
    have hq := hrows.mem_iff (a := q)
    rw [List.mem_filter, Bool.and_eq_true, decide_eq_true_eq, decide_eq_true_eq] at hq
    constructor
    · rintro ⟨hm, hk, hsrc, hord⟩
      obtain ⟨q', hq', rfl⟩ := List.mem_map.mp (hq.mp ⟨hm, hk, hsrc⟩)
      obtain ⟨⟨V, o⟩, hV, rfl⟩ := List.mem_map.mp hq'
      obtain rfl : o = 0 := Int.ofNat.inj (Option.some.inj hord)
      exact ⟨V, List.mem_zipIdx_iff_getElem?.mp hV, rfl⟩
    · rintro ⟨V, hV, rfl⟩
      obtain ⟨hm, hk, hsrc⟩ := hq.mpr (List.mem_map_of_mem (List.mem_map_of_mem
        (List.mem_zipIdx_iff_getElem?.mpr hV)))
      exact ⟨hm, hk, hsrc, rfl⟩
  rw [← hmem]
  have hscan : ∀ q : Relation, (q.srcId = entityId a
      (Selected.instructionKey ⟨C.module a.id, K, F⟩ i) && q.kind = "llvm.operand" &&
        q.ordinal = some 0 && (t.entity q.dstId).isSome) = true ↔
      (q.srcId = entityId a (Selected.instructionKey ⟨C.module a.id, K, F⟩ i) ∧
        q.kind = "llvm.operand" ∧ q.ordinal = some 0 ∧ (t.entity q.dstId).isSome = true) := by
    intro q
    simp only [Bool.and_eq_true, decide_eq_true_eq, and_assoc]
  constructor
  · intro hfind
    have hcond := List.find?_some hfind
    obtain ⟨hsrc, hk, hord, _⟩ := (hscan r).mp hcond
    exact ⟨List.mem_of_find?_eq_some hfind, hk, hsrc, hord⟩
  · rintro ⟨hm, hk, hsrc, hord⟩
    obtain ⟨x, hx⟩ := entity_of_mem hc (hc.relationRefs r hm).2.2.1
    have hsome : (t.sinkOperand (entityId a
        (Selected.instructionKey ⟨C.module a.id, K, F⟩ i)) 0).isSome = true := by
      unfold Tables.sinkOperand
      rw [List.find?_isSome]
      exact ⟨r, hm, (hscan r).mpr ⟨hsrc, hk, hord, by rw [hx]; rfl⟩⟩
    obtain ⟨r', hr'⟩ := Option.isSome_iff_exists.mp hsome
    -- there is one such row
    have hcond := List.find?_some hr'
    obtain ⟨hsrc', hk', hord', _⟩ := (hscan r').mp hcond
    obtain ⟨V, hV, hrV⟩ := (hmem r).mp ⟨hm, hk, hsrc, hord⟩
    obtain ⟨V', hV', hrV'⟩ :=
      (hmem r').mp ⟨List.mem_of_find?_eq_some hr', hk', hsrc', hord'⟩
    obtain rfl := Option.some.inj (hV.symm.trans hV')
    rw [hr', hrV', hrV]

/-- **What the scan sees of a return**: whether its first operand looks null. -/
theorem Contents.Shows.valueReturn (h : C.Shows t a K F p) (hconf : Conforms C t)
    (hc : t.Constraints) (hI : F.instructions[i]? = some I) :
    t.valueReturn (p.ownedRow (Selected.instructionEntity ⟨C.module a.id, K, F⟩ I i)) = true ↔
      ∃ V, I.operands[0]? = some V ∧ Selected.looksNull ⟨C.module a.id, K, F⟩ V = false := by
  have hid : (p.ownedRow (Selected.instructionEntity ⟨C.module a.id, K, F⟩ I i)).id =
      entityId a (Selected.instructionKey ⟨C.module a.id, K, F⟩ i) := h.entityId_eq _
  unfold Tables.valueReturn Tables.operandEntity
  rw [hid]
  cases hV : I.operands[0]? with
  | none =>
    have hnone : t.sinkOperand (entityId a
        (Selected.instructionKey ⟨C.module a.id, K, F⟩ i)) 0 = none := by
      refine Option.eq_none_iff_forall_ne_some.mpr fun r hr => ?_
      obtain ⟨V, hV', _⟩ := (h.sinkOperand_iff hconf.sound hc hI).mp hr
      rw [hV] at hV'
      cases hV'
    rw [hnone]
    exact iff_of_false Bool.false_ne_true fun ⟨V, hV', _⟩ => by cases hV'
  | some V =>
    have hrow := (h.sinkOperand_iff hconf.sound hc hI).mpr ⟨V, hV, rfl⟩
    have hrel := (sinkOperand_some hrow).1
    obtain ⟨x, hx⟩ := entity_of_mem hc (hc.relationRefs _ hrel).2.2.1
    have hxid : x.id = entityId a (Selected.name ⟨C.module a.id, K, F⟩ V) :=
      (key_of_lookup hx).trans (h.dstId _)
    have hvalue : V ∈ Selected.values ⟨C.module a.id, K, F⟩ :=
      Selected.value_of_instruction (S := ⟨C.module a.id, K, F⟩) hI
        (List.mem_append_left _ (List.mem_of_getElem? hV))
    have hlooks := h.value_row hconf hc hvalue (mem_of_lookup hx) hxid
    rw [hrow, Option.bind_some, hx, Option.any_some]
    show (!x.looksNull) = true ↔ _
    rw [hlooks, Bool.not_eq_true']
    exact ⟨fun hl => ⟨V, rfl, hl⟩, fun ⟨V', hV', hl⟩ => Option.some.inj hV' ▸ hl⟩

end Rows

/-! ## 3. The hint -/

/-- The hint is in the answer. -/
def TraceEnvelope.Hints (out : TraceEnvelope) : Prop :=
  ∃ u ∈ out.unknowns, u.kind = some "result_channel"

theorem mem_resultChannel {t : Tables} {handle : String} {returns : List Entity} {u : Unknown} :
    u ∈ resultChannel t handle returns ↔ u = resultChannelUnknown ∧
      (∀ x ∈ returns, t.valueReturn x = false) ∧
      ∃ x ∈ t.entities, x.functionId = some handle ∧ x.opcode = some "store" := by
  have hstores : (t.entitiesOf handle (·.opcode = some "store")).length ≠ 0 ↔
      ∃ x ∈ t.entities, x.functionId = some handle ∧ x.opcode = some "store" := by
    rw [← Nat.pos_iff_ne_zero, List.length_pos_iff_exists_mem]
    refine exists_congr fun x => ?_
    unfold Tables.entitiesOf
    rw [List.mem_filter, Bool.and_eq_true, decide_eq_true_eq, decide_eq_true_eq]
  unfold resultChannel
  rw [← hstores]
  split
  · rename_i h
    rw [Bool.and_eq_true, Bool.not_eq_true', List.any_eq_false, decide_eq_true_eq] at h
    rw [List.mem_singleton]
    refine ⟨fun hu => ⟨hu, fun x hx => ?_, h.2⟩, fun hu => hu.1⟩
    exact Bool.eq_false_iff.mpr (h.1 x hx)
  · rename_i h
    refine iff_of_false List.not_mem_nil fun ⟨_, hx, hs⟩ => h ?_
    rw [Bool.and_eq_true, Bool.not_eq_true', List.any_eq_false, decide_eq_true_eq]
    exact ⟨fun x hm => Bool.eq_false_iff.mp (hx x hm), hs⟩

section Hint

variable {env : Environment} {graph : String → String → Outcome}
  {draw : Nat → Nat → MaterializeDraw} {db db' : Database} {handle selector detail : String}
  {budgetNodes budgetDepth : Int} {includes : List String} {out : TraceEnvelope}

/-- **When the hint is given**, in the tables after the first materialization on demand. -/
theorem traceReturn_hints (h : (Query.traceReturn handle selector budgetNodes budgetDepth detail
    includes).perform env graph draw db = (db', .ok (.trace out))) :
    ∃ db₁ function, ensureMaterialized env graph (draw 0 0) handle db = (db₁, .ok ()) ∧
      db₁.function handle = some function ∧
      (out.Hints ↔
        (∀ x ∈ db₁.entities, x.functionId = some handle → x.opcode = some "ret" →
          (selector = "all" ∨ x.id = selector) → db₁.valueReturn x = false) ∧
        ∃ x ∈ db₁.entities, x.functionId = some handle ∧ x.opcode = some "store") := by
  obtain ⟨answer, hanswer, hout⟩ := respond_ok h
  cases hout
  unfold Irez.traceReturn at hanswer
  split at hanswer
  · cases hanswer
  · rename_i db₁ req returns extra h₁
    obtain ⟨hens, hread⟩ := afterEnsure_ok h₁
    split at hanswer
    · cases hanswer
    · rename_i db₂ out₂ hrun
      cases hanswer
      obtain ⟨inv, rfl⟩ := runTrace_turns hrun
      obtain ⟨req', hreq, hread⟩ := bind_eq_ok hread
      obtain ⟨returns', hsel, hread⟩ := bind_eq_ok hread
      cases hread
      obtain ⟨function, hfunction, _, rfl⟩ := traceRequest_ok hreq
      refine ⟨db₁, function, hens, hfunction, ?_⟩
      have hmem := selectReturns_ok db₁.constraints hsel
      constructor
      · rintro ⟨u, hu, hk⟩
        rcases List.mem_append.mp hu with hu | hu
        · rcases traceEnvelope_unknowns traceTurns_read u hu with rfl | rfl | rfl | rfl
          · exact absurd hk (by decide : (noSinks .ret).kind ≠ some "result_channel")
          · exact absurd hk (by decide : scopeUnknown.kind ≠ some "result_channel")
          · exact absurd hk (by decide : controlDependenceUnknown.kind ≠ some "result_channel")
          · exact absurd hk (by decide : sourceUnknown.kind ≠ some "result_channel")
        · obtain ⟨_, hnone, hstore⟩ := mem_resultChannel.mp hu
          exact ⟨fun x hx ho hop hs => hnone x ((hmem x).mpr ⟨hx, ho, hop, hs⟩), hstore⟩
      · rintro ⟨hnone, hstore⟩
        refine ⟨resultChannelUnknown, List.mem_append_right _ (mem_resultChannel.mpr
          ⟨rfl, fun x hx => ?_, hstore⟩), rfl⟩
        obtain ⟨hx, ho, hop, hs⟩ := (hmem x).mp hx
        exact hnone x hx ho hop hs

end Hint

section Truth

variable {C : Contents} {adapter : Adapter} {env : Environment} {draw : Nat → Nat → MaterializeDraw}
  {db db' : Database} {a : Artifact} {K : Nat} {F : Function}

/-- A return that the selector names gives away that the function returns a value. -/
def Selected.Betrayed (S : Selected) (a : Artifact) (selector : String) : Prop :=
  ∃ i I, S.function.instructions[i]? = some I ∧
    (selector = "all" ∨ entityId a (S.instructionKey i) = selector) ∧ S.LooksValued I

/-- **The hint in the module**: it is given where the function stores and no selected return
    gives away a value. -/
theorem History.hints (h : History C db) (hu : C.Unambiguous)
    (hans : C.Answered db.toTables adapter) (hst : db.Stores a)
    (hF : (C.module a.id).functions[K]? = some F) (hd : F.isDeclaration = false)
    {selector detail : String} {budgetNodes budgetDepth : Int} {includes : List String}
    {out : TraceEnvelope}
    (hq : (Query.traceReturn (entityId a (functionLocal (functionKey K))) selector budgetNodes
      budgetDepth detail includes).perform env adapter.functionGraph draw db =
        (db', .ok (.trace out))) :
    out.Hints ↔ Selected.HasStore ⟨C.module a.id, K, F⟩ ∧
      ¬ Selected.Betrayed ⟨C.module a.id, K, F⟩ a selector := by
  obtain ⟨db₁, function, hens, hfunction, hhints⟩ := traceReturn_hints hq
  obtain ⟨e₀, hrun, he₀, hentity, hkind, _, _⟩ := h.settled_function hu hans hens hfunction
  have hconf := (h.tail hrun).conforms hu
  have hid₀ : e₀.id = entityId a (functionLocal (functionKey K)) := key_of_lookup he₀
  have hhome : e₀.home = some (entityId a (functionLocal (functionKey K))) := by
    unfold Entity.home
    rw [if_pos (h.function_before hu hrun he₀ hentity hkind).1, hid₀]
  rw [← hid₀] at hens
  obtain ⟨p, hp⟩ := (h.conforms hu).loaded_shows hu hans hst (mem_of_lookup he₀) hF hd (.inr hhome)
    hconf (hst.history hrun) hrun hens
  have hhandle : entityId a (functionLocal (functionKey K)) = p.target.handle :=
    hp.publishes.handle.symm
  rw [hhints, hhandle]
  have hstore : (∃ x ∈ db₁.entities, x.functionId = some p.target.handle ∧
      x.opcode = some "store") ↔ Selected.HasStore ⟨C.module a.id, K, F⟩ := by
    constructor
    · rintro ⟨x, hx⟩
      obtain ⟨i, I, hI, hop, _⟩ := hp.opcode_row.mp hx
      exact ⟨I, List.mem_of_getElem? hI, hop⟩
    · rintro ⟨I, hI, hop⟩
      obtain ⟨i, hI⟩ := List.mem_iff_getElem?.mp hI
      exact ⟨_, hp.opcode_row.mpr ⟨i, I, hI, hop, rfl⟩⟩
  rw [hstore, and_comm]
  refine and_congr_right fun _ => ?_
  constructor
  · rintro hnone ⟨i, I, hI, hsel, hop, V, hV, hlooks⟩
    obtain ⟨hx, ho, hxop⟩ := hp.opcode_row.mpr ⟨i, I, hI, hop, rfl⟩
    have hfalse := hnone _ hx ho hxop (hsel.imp id fun hs => (hp.entityId_eq _).trans hs)
    have htrue := (hp.valueReturn hconf db₁.constraints hI).mpr ⟨V, hV, hlooks⟩
    rw [htrue] at hfalse
    cases hfalse
  · intro hnone x hx ho hop hsel
    obtain ⟨i, I, hI, hIop, rfl⟩ := hp.opcode_row.mp ⟨hx, ho, hop⟩
    refine Bool.eq_false_iff.mpr fun htrue => hnone ⟨i, I, hI, ?_, hIop, ?_⟩
    · exact hsel.imp id fun hs => (hp.entityId_eq _).symm.trans hs
    · exact (hp.valueReturn hconf db₁.constraints hI).mp htrue

/-- **When the hint is true.** The hint is given exactly where the function stores and returns
    no value, if and only if a function that stores and returns a value has a selected return
    whose operand does not look null. -/
theorem store_channel_true (h : History C db) (hu : C.Unambiguous)
    (hans : C.Answered db.toTables adapter) (hst : db.Stores a)
    (hF : (C.module a.id).functions[K]? = some F) (hd : F.isDeclaration = false)
    {selector detail : String} {budgetNodes budgetDepth : Int} {includes : List String}
    {out : TraceEnvelope}
    (hq : (Query.traceReturn (entityId a (functionLocal (functionKey K))) selector budgetNodes
      budgetDepth detail includes).perform env adapter.functionGraph draw db =
        (db', .ok (.trace out))) :
    (out.Hints ↔ Selected.WritesOnly ⟨C.module a.id, K, F⟩) ↔
      (Selected.HasStore ⟨C.module a.id, K, F⟩ →
        (∃ I ∈ F.instructions, Selected.ReturnsValue ⟨C.module a.id, K, F⟩ I) →
          Selected.Betrayed ⟨C.module a.id, K, F⟩ a selector) := by
  have hvalue : Selected.Betrayed ⟨C.module a.id, K, F⟩ a selector →
      ∃ I ∈ F.instructions, Selected.ReturnsValue ⟨C.module a.id, K, F⟩ I := by
    rintro ⟨i, I, hI, _, hlooks⟩
    exact ⟨I, List.mem_of_getElem? hI, hlooks.returnsValue⟩
  rw [h.hints hu hans hst hF hd hq]
  constructor
  · rintro hiff hstore ⟨I, hI, hval⟩
    by_contra hnot
    exact (hiff.mp ⟨hstore, hnot⟩).2 I hI hval
  · intro hcond
    constructor
    · rintro ⟨hstore, hnot⟩
      exact ⟨hstore, fun I hI hval => hnot (hcond hstore ⟨I, hI, hval⟩)⟩
    · rintro ⟨hstore, hnone⟩
      refine ⟨hstore, fun hb => ?_⟩
      obtain ⟨I, hI, hval⟩ := hvalue hb
      exact hnone I hI hval

end Truth

/-! ## 4. A function that returns null and a pointer -/

namespace MixedReturns

/-- `store ptr %p, ptr %p`, and then `ret ptr null` or `ret ptr %p`. -/
def main : Function :=
  { Collision.function "main" with
    arguments := [⟨"p", "ptr", "ptr %p"⟩, ⟨"c", "i1", "i1 %c"⟩]
    blocks :=
      [{ name := "entry"
         body := [{ Collision.instruction "store" with operands := [.argument 0, .argument 0] }]
         terminator :=
          { Collision.instruction "br" with operands := [.argument 1, .block 2, .block 1] }
         terminatorKind := .conditionalBranch
         successors := [1, 2] },
       { name := "yes"
         body := []
         terminator := { Collision.instruction "ret" with operands := [.other 0] }
         terminatorKind := .other
         successors := [] },
       { name := "no"
         body := []
         terminator := { Collision.instruction "ret" with operands := [.argument 0] }
         terminatorKind := .other
         successors := [] }]
    successors_lt := by decide }

def module : Module :=
  { Collision.module with functions := [main], others := [⟨"", "ptr", "ptr null"⟩] }

def selected : Selected := ⟨module, 0, main⟩

/-- `trace-return f0 --return selector`. -/
def call (selector : String) : Database × Except Thrown Response :=
  (Query.traceReturn Collision.f0 selector 20 8 "summary" []).perform Sample.environment
    (singleAdapter module).functionGraph Uncollected.draw (singleCatalogued module)

/-- `ret ptr null`. -/
def null : String := entityId Sample.artifact (selected.instructionKey 2)

def hinted : Except Thrown Response → Bool
  | .ok (.trace out) => out.unknowns.any (·.kind = some "result_channel")
  | _ => false

theorem unambiguous : (Contents.single module).Unambiguous := by
  have hnames : ∀ G ∈ module.functions, G.name ≠ "f0" := by decide
  intro _ K F hF _ J hJ G hG
  have hlt : K < 1 := (List.getElem?_eq_some_iff.mp hF).1
  obtain rfl : K = 0 := by omega
  exact hnames G (List.mem_of_getElem? hG)

theorem stores : (singleCatalogued module).Stores Sample.artifact := by
  have hmem : (singleCatalogued module).artifacts.any fun b =>
      b.id = Sample.artifact.id && b.contentSha256 = Sample.artifact.contentSha256 := by
    decide +kernel
  obtain ⟨b, hb, h⟩ := List.any_eq_true.mp hmem
  rw [Bool.and_eq_true, decide_eq_true_eq, decide_eq_true_eq] at h
  exact ⟨b, hb, h.1, h.2⟩

theorem not_writesOnly : ¬ selected.WritesOnly := fun h =>
  h.2 { Collision.instruction "ret" with operands := [.argument 0] } (by decide)
    ⟨rfl, .argument 0, rfl, rfl⟩

end MixedReturns

open MixedReturns in
/-- **The null return is selected**, and the hint says that every return is one. -/
theorem store_channel_false :
    History (Contents.single module) (singleCatalogued module) ∧
      (∃ I, selected.function.instructions[2]? = some I ∧ I.opcode = "ret") ∧
      ∃ db' out, call null = (db', .ok (.trace out)) ∧ out.Hints ∧ ¬ selected.WritesOnly := by
  have hhint : hinted (call null).2 = true := by decide +kernel
  refine ⟨singleCatalogued_history module, ⟨_, rfl, rfl⟩, ?_⟩
  generalize call null = answer at hhint ⊢
  obtain ⟨db', e | response⟩ := answer
  · cases hhint
  · cases response with
    | trace out =>
      obtain ⟨u, hu, hk⟩ := List.any_eq_true.mp hhint
      exact ⟨db', out, rfl, ⟨u, hu, of_decide_eq_true hk⟩, not_writesOnly⟩
    | _ => cases hhint

open MixedReturns in
/-- With all returns selected the returned pointer is seen. -/
theorem store_channel_true_all : ∃ db' out, call "all" = (db', .ok (.trace out)) ∧
    (out.Hints ↔ selected.WritesOnly) := by
  have hok : (match (call "all").2 with
    | .ok (.trace _) => true
    | _ => false) = true := by decide +kernel
  generalize h : call "all" = answer at hok ⊢
  obtain ⟨db', e | response⟩ := answer
  · cases hok
  · cases response with
    | trace out =>
      refine ⟨db', out, rfl, (store_channel_true (singleCatalogued_history module) unambiguous
        (single_answered module _) stores (K := 0) (F := main) rfl rfl h).mpr fun _ _ => ?_⟩
      exact ⟨3, _, rfl, .inl rfl, rfl, .argument 0, rfl, rfl⟩
    | _ => cases hok

end Irez
