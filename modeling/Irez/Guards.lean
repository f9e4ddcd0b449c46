/-
  File:      Irez/Guards.lean
  Subject:   `guards` against the module (service.cpp 1366-1518, adapter.cpp 393-424).

  After the materialization on demand a function has its control dependence, so `guards` reads
  that and never falls back on the edges. What it answers is then a matter of the module: the edges
  whose target every path past which leads to the block, each with its branch.

  * `Selected.GuardOf` -- the answer as the module has it;
  * `Contents.Shows.rowsFrom` -- the rows that leave an entity of a function;
  * `Contents.Shows.guardRow_eq` -- a row of control dependence, read for `guards`;
  * `guards_follow_module` -- the answer is that, each edge once.
-/
import Mathlib.Data.List.Find
import Irez.Dependence
import Irez.Listings
import Irez.StoreChannel

open Irez.Basis

namespace Irez

/-! ## 1. What guards a block -/

namespace Selected

variable {S : Selected} {T : PostDominatorTree} {exits : Nat → Prop}

/-- The branch of a block has a predicate. -/
def HasPredicate (B : Block) : Prop :=
  B.terminator.opcode = "switch" ∨ (B.terminator.opcode = "br" ∧ B.successors.length = 2)

instance (B : Block) : Decidable (HasPredicate B) :=
  inferInstanceAs (Decidable (_ ∨ _))

/-- The row of the `s`-th edge of the block `x`, which leads to `z`. -/
def guardRow (S : Selected) (a : Artifact) (B : Block) (x s z : Nat) : GuardRow :=
  { terminator := entityId a (S.instructionKey (S.function.terminatorNumber x))
    requiredSuccessor := some s
    exactText := some B.terminator.text
    opcode := some B.terminator.opcode
    attributes := successorAttributes B.terminatorKind s ++ [("successor", .str (S.blockKey z))]
    predicate := if HasPredicate B then (B.terminator.operands[0]?).map fun V => entityId a (S.name V)
      else none }

/-- **What guards the block `y`**: an edge such that `y` post-dominates where it leads and not
    where it comes from. -/
def GuardOf (S : Selected) (exits : Nat → Prop) (a : Artifact) (y : Nat) (row : GuardRow) : Prop :=
  ∃ x s z B, S.function.blocks[x]? = some B ∧ B.successors[s]? = some z ∧
    PostDominates S.function.Edge exits y z ∧ ¬ PostDominates S.function.Edge exits y x ∧
    row = S.guardRow a B x s z

/-- The control relation of an edge. -/
def controlRow (S : Selected) (B : Block) (x y z s : Nat) : RelationRecord :=
  relation "llvm.control-dependence" (S.blockKey y)
    (S.instructionKey (S.function.terminatorNumber x)) (some (s : Int))
    (successorAttributes B.terminatorKind s ++ [("successor", .str (S.blockKey z))])

/-- The control relations of a stream that leave a block. -/
theorem mem_controlRows (hT : IsPostDominatorTree S.function exits T) {y : Nat} {q : RelationRecord} :
    (q ∈ relationRecords (S.graph T).records ∧ q.kind = "llvm.control-dependence" ∧
      q.src = S.blockKey y) ↔
      ∃ x s z B, S.function.blocks[x]? = some B ∧ B.successors[s]? = some z ∧
        PostDominates S.function.Edge exits y z ∧ ¬ PostDominates S.function.Edge exits y x ∧
        q = S.controlRow B x y z s := by
  have hrow {x s z y : Nat} {B : Block} (hB : S.function.blocks[x]? = some B)
      (hs : B.successors[s]? = some z) (hy : y ∈ T.controlled x z) :
      S.controlRelation B (S.function.terminatorNumber x) y z s =
        .relation (S.controlRow B x y z s) := by
    have hlt := controlled_lt hT x z ⟨s, Function.successor_eq_some.mpr ⟨B, hB, hs⟩⟩ y hy
    have hz := S.function.successors_lt B (List.mem_of_getElem? hB) z (List.mem_of_getElem? hs)
    unfold controlRelation controlRow
    rw [keys_block hlt, keys_block hz]
    rfl
  constructor
  · rintro ⟨hq, hk, hsrc⟩
    rw [mem_relationRecords, graph_records] at hq
    rcases List.mem_append.mp hq with hq | hq
    · have hem := structureEmitter_emitted S _ hq
      cases hem with
      | relation _ _ _ _ h =>
        have hne : ∀ kind ∈ structuralKinds, kind ≠ "llvm.control-dependence" := by decide
        exact absurd hk (hne _ h)
    · obtain ⟨x, s, z, y', B, hB, hs, hy, he⟩ := mem_controlDependence.mp hq
      have hz : S.function.successor x s = some z := Function.successor_eq_some.mpr ⟨B, hB, hs⟩
      obtain ⟨hpost, hnot⟩ := (mem_controlled hT ⟨s, hz⟩ y').mp hy
      rw [hrow hB hs hy] at he
      cases he
      obtain rfl := S.blockKey_inj hsrc
      exact ⟨x, s, z, B, hB, hs, hpost, hnot, rfl⟩
  · rintro ⟨x, s, z, B, hB, hs, hpost, hnot, rfl⟩
    have hz : S.function.successor x s = some z := Function.successor_eq_some.mpr ⟨B, hB, hs⟩
    have hy := (mem_controlled hT ⟨s, hz⟩ y).mpr ⟨hpost, hnot⟩
    refine ⟨?_, rfl, rfl⟩
    rw [mem_relationRecords, graph_records, ← hrow hB hs hy]
    exact List.mem_append_right _ (mem_controlDependence.mpr ⟨x, s, z, y, B, hB, hs, hy, rfl⟩)

/-- No edge has two of them. -/
theorem controlRows_nodup (hT : IsPostDominatorTree S.function exits T) (y : Nat) :
    (((relationRecords (S.graph T).records).filter fun q =>
      q.kind = "llvm.control-dependence" && q.src = S.blockKey y).map
        fun q => (q.dst, q.ordinal)).Nodup := by
  have hstructure : (relationRecords S.structureEmitter.records).filter (fun q =>
      q.kind = "llvm.control-dependence" && q.src = S.blockKey y) = [] := by
    refine List.filter_eq_nil_iff.mpr fun q hq hp => ?_
    rw [Bool.and_eq_true, decide_eq_true_eq, decide_eq_true_eq] at hp
    have hem := structureEmitter_emitted S _ (mem_relationRecords.mp hq)
    cases hem with
    | relation _ _ _ _ h =>
      have hne : ∀ kind ∈ structuralKinds, kind ≠ "llvm.control-dependence" := by decide
      exact absurd hp.1 (hne _ h)
  rw [graph_records, relationRecords_append, List.filter_append, hstructure, List.nil_append]
  unfold List.Nodup relationRecords
  rw [List.pairwise_map, List.pairwise_filter, List.pairwise_filterMap,
    List.pairwise_iff_forall_sublist]
  intro r r' hsub q hq q' hq' hp hp' heq
  have hr : r = .relation q := by
    cases r <;> simp_all
  have hr' : r' = .relation q' := by
    cases r' <;> simp_all
  subst hr hr'
  rw [Bool.and_eq_true, decide_eq_true_eq, decide_eq_true_eq] at hp hp'
  obtain ⟨hdst, hord⟩ := Prod.mk.inj heq
  -- two relations of one edge
  obtain ⟨x, s, z, y', B, hB, hs, _, he⟩ := mem_controlDependence.mp (hsub.subset List.mem_cons_self)
  have hone : S.isControl y x s (.relation q) = true := by
    cases he
    simp only [isControl, Bool.and_eq_true, decide_eq_true_eq]
    exact ⟨⟨⟨hp.1, hp.2⟩, rfl⟩, rfl⟩
  have htwo : S.isControl y x s (.relation q') = true := by
    simp only [isControl, Bool.and_eq_true, decide_eq_true_eq] at hone ⊢
    exact ⟨⟨⟨hp'.1, hp'.2⟩, hdst ▸ hone.1.2⟩, hord ▸ hone.2⟩
  have hpairs := controlDependence_pairwise (y := y) (s := s) (controlled_lt hT)
    (List.getElem?_eq_some_iff.mp hB).1
  exact List.pairwise_iff_forall_sublist.mp hpairs hsub ⟨hone, htwo⟩

end Selected

/-! ## 2. The rows of an entity -/

section Rows

variable {C : Contents} {t : Tables} {a : Artifact} {K i y : Nat} {F : Function} {p : Publish}
  {I : Instruction} {exits : Nat → Prop}

/-- **The rows that leave an entity of a function** are the function's relations from its key. -/
theorem Contents.Shows.rowsFrom (h : C.Shows t a K F p) (hs : Sound .scoped t) {x : Entity} {l : String}
    (hx : x ∈ t.entities) (ho : x.functionId = some p.target.handle) (hid : x.id = entityId a l)
    (hl : ':' ∈ l.toList) (kind : String) :
    (t.relations.filter fun r => r.kind = kind && r.srcId = entityId a l) =
      (p.relations.filter fun q => q.kind = kind && q.src = l).map p.snapshotRelation := by
  have hown : (t.relations.filter fun r => r.kind = kind && r.srcId = entityId a l) =
      (t.relationsOf p.target.handle).filter fun r => r.kind = kind && r.srcId = entityId a l := by
    unfold Tables.relationsOf
    rw [List.filter_filter]
    refine List.filter_congr fun r hr => ?_
    by_cases hsrc : r.srcId = entityId a l
    · have hf := h.function_of_source hs hx ho hr (hsrc.trans hid.symm)
      simp [hf]
    · simp [hsrc]
  rw [hown, h.snapshot.relations, List.filter_map]
  refine congrArg _ (List.filter_congr fun q hq => ?_)
  have hiff : (p.snapshotRelation q).srcId = entityId a l ↔ q.src = l := by
    rw [h.srcId]
    refine ⟨fun heq => entityId_right_inj ?_ hl heq, fun heq => congrArg _ heq⟩
    rw [h.relations_eq] at hq
    exact (Selected.relation_declared (S := ⟨C.module a.id, K, F⟩) (C.graphs F) hq).2.1.colon_mem
  show (decide (q.kind = _) && decide (_ = _)) = _
  rw [decide_eq_decide.mpr hiff]

/-- The edges of a terminator. -/
theorem Contents.Shows.successorCount (h : C.Shows t a K F p) (hs : Sound .scoped t)
    (hc : t.Constraints) {x : Nat} {B : Block} (hB : F.blocks[x]? = some B) :
    (t.relations.filter fun r => r.srcId = entityId a (Selected.instructionKey ⟨C.module a.id, K, F⟩
      (F.terminatorNumber x)) && r.kind = "llvm.cfg-successor").length = B.successors.length := by
  have hI := Selected.terminator_at (S := ⟨C.module a.id, K, F⟩) hB
  obtain ⟨_, hrow⟩ := h.instruction_row hc hI
  have hfrom := h.rowsFrom (l := Selected.instructionKey ⟨C.module a.id, K, F⟩ (F.terminatorNumber x))
    hs hrow rfl (h.entityId_eq _) (Selected.instructionKey_scoped _ _).colon_mem "llvm.cfg-successor"
  have hn : F.firstInstruction x + B.body.length = F.terminatorNumber x := by
    unfold Function.terminatorNumber
    rw [hB]
    rfl
  -- the last instruction of the block has its edges
  have hlast : ((B.terminator, F.terminatorNumber x), Selected.successorRows ⟨C.module a.id, K, F⟩ B
      (F.terminatorNumber x)) ∈ Selected.numberedInstructions ⟨C.module a.id, K, F⟩ := by
    refine List.mem_flatMap.mpr ⟨(B, x, F.firstInstruction x),
      Selected.mem_numbered_iff.mpr ⟨hB, rfl⟩, List.mem_append_right _ ?_⟩
    rw [hn]
    exact List.mem_singleton.mpr rfl
  have hout := Selected.outgoing_successors (S := ⟨C.module a.id, K, F⟩) (T := C.postDominators F) hlast
  have hlength := congrArg List.length hout
  rw [outgoing, byOrdinal, List.length_insertionSort, ← h.relations_eq] at hlength
  have hswap : (t.relations.filter fun r => r.srcId = entityId a (Selected.instructionKey
      ⟨C.module a.id, K, F⟩ (F.terminatorNumber x)) && r.kind = "llvm.cfg-successor") =
      t.relations.filter fun r => r.kind = "llvm.cfg-successor" && r.srcId = entityId a
        (Selected.instructionKey ⟨C.module a.id, K, F⟩ (F.terminatorNumber x)) :=
    List.filter_congr fun r _ => Bool.and_comm _ _
  rw [hswap, hfrom, List.length_map]
  refine hlength.trans ?_
  rw [Selected.successorRows, List.length_map, List.length_zipIdx]

/-- The predicate of a terminator is the first operand of a branch that has one. -/
theorem Contents.Shows.predicate_eq (h : C.Shows t a K F p) (hs : Sound .scoped t)
    (hc : t.Constraints) {x : Nat} {B : Block} (hB : F.blocks[x]? = some B) :
    (t.predicateRow (entityId a (Selected.instructionKey ⟨C.module a.id, K, F⟩
      (F.terminatorNumber x)))).map (·.dstId) =
      if Selected.HasPredicate B then (B.terminator.operands[0]?).map fun V =>
        entityId a (Selected.name ⟨C.module a.id, K, F⟩ V) else none := by
  have hI := Selected.terminator_at (S := ⟨C.module a.id, K, F⟩) hB
  obtain ⟨hentity, _⟩ := h.instruction_row hc hI
  -- every operand row has its entity
  have hoperand (handle : String) : t.operandAt handle 0 = t.sinkOperand handle 0 := by
    unfold Tables.operandAt Tables.sinkOperand
    refine List.find?_congr fun r hr => ?_
    obtain ⟨x, hx⟩ := entity_of_mem hc (hc.relationRefs r hr).2.2.1
    rw [hx, Option.isSome_some, Bool.and_true]
  have hbranches : t.branches (entityId a (Selected.instructionKey ⟨C.module a.id, K, F⟩
      (F.terminatorNumber x))) = decide (Selected.HasPredicate B) := by
    unfold Tables.branches
    rw [hentity, h.successorCount hs hc hB, Option.any_some, Bool.eq_iff_iff]
    simp only [Bool.or_eq_true, Bool.and_eq_true, decide_eq_true_eq]
    exact or_congr Option.some_inj (and_congr_left fun _ => Option.some_inj)
  unfold Tables.predicateRow
  rw [hbranches]
  by_cases hp : Selected.HasPredicate B
  · rw [if_pos (decide_eq_true hp), if_pos hp, hoperand]
    cases hV : B.terminator.operands[0]? with
    | none =>
      have hnone : t.sinkOperand (entityId a (Selected.instructionKey ⟨C.module a.id, K, F⟩
          (F.terminatorNumber x))) 0 = none := by
        refine Option.eq_none_iff_forall_ne_some.mpr fun r hr => ?_
        obtain ⟨V, hV', _⟩ := (h.sinkOperand_iff hs hc hI).mp hr
        rw [hV] at hV'
        cases hV'
      rw [hnone]
      rfl
    | some V =>
      rw [(h.sinkOperand_iff hs hc hI).mpr ⟨V, hV, rfl⟩]
      exact congrArg some (h.dstId _)
  · rw [if_neg (by rw [decide_eq_true_eq]; exact hp), if_neg hp]
    rfl

/-- **A row of control dependence, read for `guards`.** -/
theorem Contents.Shows.guardRow_eq (h : C.Shows t a K F p) (hs : Sound .scoped t)
    (hc : t.Constraints) {x s z : Nat} {B : Block} (hB : F.blocks[x]? = some B) :
    t.guardRow true (p.snapshotRelation (Selected.controlRow ⟨C.module a.id, K, F⟩ B x y z s)) =
      Selected.guardRow ⟨C.module a.id, K, F⟩ a B x s z := by
  have hI := Selected.terminator_at (S := ⟨C.module a.id, K, F⟩) hB
  obtain ⟨hentity, _⟩ := h.instruction_row hc hI
  have hterminator : guardTerminator true (p.snapshotRelation
      (Selected.controlRow ⟨C.module a.id, K, F⟩ B x y z s)) =
        entityId a (Selected.instructionKey ⟨C.module a.id, K, F⟩ (F.terminatorNumber x)) :=
    h.dstId _
  unfold Tables.guardRow
  simp only [hterminator, hentity, Option.bind_some, h.predicate_eq hs hc hB]
  rfl

end Rows

/-! ## 3. The block of an instruction -/

/-- The value lies in the block `y`, or is the block. -/
def Selected.InBlock (S : Selected) (y : Nat) (V : Value) : Prop :=
  V = .block y ∨ ∃ B j, S.function.blocks[y]? = some B ∧ j < B.instructions.length ∧
    V = .instruction (S.function.firstInstruction y + j)

theorem Selected.InBlock.key {S : Selected} {y : Nat} {V : Value} (hy : y < S.function.blocks.length)
    (h : S.InBlock y V) :
    S.keys V = some (S.name V) ∧ ScopedTo (Irez.functionKey S.ordinal) (S.name V) := by
  rcases h with rfl | ⟨B, j, hB, hj, rfl⟩
  · have hkey := keys_block hy
    rw [name_of_keys hkey]
    exact ⟨hkey, S.blockKey_scoped y⟩
  · have hkey := keys_instruction (List.getElem?_eq_some_iff.mp
      (instruction_at hB (List.getElem?_eq_getElem hj))).1
    rw [name_of_keys hkey]
    exact ⟨hkey, S.instructionKey_scoped _⟩

section Block

variable {C : Contents} {t : Tables} {a : Artifact} {K i y : Nat} {F : Function} {p : Publish}
  {I : Instruction} {exits : Nat → Prop} {V : Value}

/-- **The block of an instruction** is the one that contains it. -/
theorem Contents.Shows.blockId_eq (h : C.Shows t a K F p)
    (hT : IsPostDominatorTree F exits (C.postDominators F)) {B : Block} {j : Nat}
    (hB : F.blocks[y]? = some B) (hI : B.instructions[j]? = some I) :
    p.blockId (Selected.instructionEntity ⟨C.module a.id, K, F⟩ I (F.firstInstruction y + j)) =
      some (entityId a (Selected.blockKey ⟨C.module a.id, K, F⟩ y)) := by
  have hlinked (k src dst : String) :
      (∃ q ∈ p.relations, q.kind = k ∧ q.src = src ∧ q.dst = dst) ↔
        ∃ V W, Selected.Linked ⟨C.module a.id, K, F⟩ exits k V W ∧
          Selected.name ⟨C.module a.id, K, F⟩ V = src ∧ Selected.name ⟨C.module a.id, K, F⟩ W = dst := by
    rw [h.relations_eq]
    exact Selected.mem_graph_linked (S := ⟨C.module a.id, K, F⟩) hT h.ordinal_lt
  have hj := (List.getElem?_eq_some_iff.mp hI).1
  have hkeys : Selected.keys ⟨C.module a.id, K, F⟩ (.instruction (F.firstInstruction y + j)) =
      some (Selected.instructionKey ⟨C.module a.id, K, F⟩ (F.firstInstruction y + j)) :=
    Selected.keys_instruction (S := ⟨C.module a.id, K, F⟩) (List.getElem?_eq_some_iff.mp
      (Selected.instruction_at (S := ⟨C.module a.id, K, F⟩) hB hI)).1
  have hblock {b : Nat} {A : Block} (hA : F.blocks[b]? = some A) :
      Selected.name ⟨C.module a.id, K, F⟩ (.block b) = Selected.blockKey ⟨C.module a.id, K, F⟩ b :=
    Selected.name_of_keys (Selected.keys_block (S := ⟨C.module a.id, K, F⟩)
      (List.getElem?_eq_some_iff.mp hA).1)
  have hat {b i : Nat} {A : Block} {J : Instruction} (hJ : A.instructions[i]? = some J) :
      (J, F.firstInstruction b + i) ∈ A.instructions.zipIdx (F.firstInstruction b) := by
    refine List.mem_zipIdx_iff_le_and_getElem?_sub.mpr ⟨Nat.le_add_right _ _, ?_⟩
    rw [Nat.add_sub_cancel_left]
    exact hJ
  -- what contains the instruction is its block
  have hsrc : ∀ q ∈ p.relations, q.kind = "llvm.contains" →
      q.dst = Selected.instructionKey ⟨C.module a.id, K, F⟩ (F.firstInstruction y + j) →
        q.src = Selected.blockKey ⟨C.module a.id, K, F⟩ y := by
    intro q hq hk hdst
    obtain ⟨V, W, hl, hV, hW⟩ := (hlinked _ _ _).mp ⟨q, hq, hk, rfl, rfl⟩
    have hname := Selected.name_of_keys hkeys
    have hsame := (hl.known hT h.ordinal_lt).2.name_inj (Selected.known_of_keys hkeys)
      (hW.trans (hdst.trans hname.symm))
    generalize hkind : "llvm.contains" = k at hl
    cases hl with
    | argument | block => cases hsame
    | @instruction b i A hA hi =>
      obtain rfl : b = y := Selected.block_unique (S := ⟨C.module a.id, K, F⟩)
        (Selected.mem_numbered_iff.mpr ⟨hA, rfl⟩) (Selected.mem_numbered_iff.mpr ⟨hB, rfl⟩)
        (hat (List.getElem?_eq_getElem hi)) (hat hI) (Value.instruction.inj hsame)
      exact hV.symm.trans (hblock hA)
    | _ => exact absurd hkind (by decide)
  obtain ⟨q, hq, hk, hqsrc, hqdst⟩ := (hlinked _ _ _).mpr
    ⟨.block y, _, .instruction hB hj, hblock hB, Selected.name_of_keys hkeys⟩
  have hblocked : startsWith "block:" (Selected.blockKey ⟨C.module a.id, K, F⟩ y) = true := by
    refine startsWith_iff.mpr ⟨functionKey K ++ ":" ++ toString y, ?_⟩
    simp only [Selected.blockKey, String.append_assoc]
  have hfound : (p.relations.find? fun r => r.kind = "llvm.contains" && r.dst =
      Selected.instructionKey ⟨C.module a.id, K, F⟩ (F.firstInstruction y + j) &&
        startsWith "block:" r.src).isSome = true := by
    rw [List.find?_isSome]
    refine ⟨q, hq, ?_⟩
    rw [hk, hqsrc, hqdst, hblocked]
    simp
  obtain ⟨r, hr⟩ := Option.isSome_iff_exists.mp hfound
  have hcond := List.find?_some hr
  simp only [Bool.and_eq_true, decide_eq_true_eq] at hcond
  have hrsrc := hsrc r (List.mem_of_find?_eq_some hr) hcond.1.1 hcond.1.2
  unfold Publish.blockId
  refine (if_pos rfl).trans ((congrArg _ hr).trans (congrArg some ?_))
  exact (congrArg _ hrsrc).trans (h.entityId_eq _)

theorem Contents.Shows.blockEntity_mem (h : C.Shows t a K F p) {B : Block} (hB : F.blocks[y]? = some B) :
    Selected.blockEntity ⟨C.module a.id, K, F⟩ B y ∈ p.entities := by
  rw [h.entities_eq, Selected.graph_entities]
  exact List.mem_append_left _ (List.mem_append_right _ (List.mem_flatMap.mpr
    ⟨_, Selected.mem_numbered_iff.mpr ⟨hB, rfl⟩, List.mem_cons_self⟩))

/-- The handle of a value in a block, and the block whose guards are asked for. -/
theorem Contents.Shows.guardedBlock_eq (h : C.Shows t a K F p)
    (hT : IsPostDominatorTree F exits (C.postDominators F)) (hc : t.Constraints)
    (hy : y < F.blocks.length) (hV : Selected.InBlock ⟨C.module a.id, K, F⟩ y V) {e : Entity}
    (he : t.entity (entityId a (Selected.name ⟨C.module a.id, K, F⟩ V)) = some e) :
    guardedBlock e (entityId a (Selected.name ⟨C.module a.id, K, F⟩ V)) =
      entityId a (Selected.blockKey ⟨C.module a.id, K, F⟩ y) := by
  rcases hV with rfl | ⟨B, j, hB, hj, rfl⟩
  · have hname := Selected.name_of_keys (Selected.keys_block (S := ⟨C.module a.id, K, F⟩) hy)
    rw [hname] at he ⊢
    obtain rfl := Option.some.inj (he.symm.trans
      (h.entity_row hc (h.blockEntity_mem (List.getElem?_eq_getElem hy)) rfl).1)
    exact if_neg (show "basic_block" ≠ "instruction" by decide)
  · have hI : B.instructions[j]? = some B.instructions[j] := List.getElem?_eq_getElem hj
    have hat := Selected.instruction_at (S := ⟨C.module a.id, K, F⟩) hB hI
    have hname := Selected.name_of_keys (Selected.keys_instruction (S := ⟨C.module a.id, K, F⟩)
      (List.getElem?_eq_some_iff.mp hat).1)
    rw [hname] at he ⊢
    obtain rfl := Option.some.inj (he.symm.trans (h.instruction_row hc hat).1)
    refine (if_pos rfl).trans ?_
    exact congrArg (Option.getD · _) (h.blockId_eq hT hB hI)

/-- **The rows of `guards`** are the control relations of the block. -/
theorem Contents.Shows.guardRelations_perm (h : C.Shows t a K F p) (hs : Sound .scoped t)
    (hc : t.Constraints) (hy : y < F.blocks.length) :
    (t.guardRelations true (entityId a (Selected.blockKey ⟨C.module a.id, K, F⟩ y))).Perm
      ((p.relations.filter fun q => q.kind = "llvm.control-dependence" &&
        q.src = Selected.blockKey ⟨C.module a.id, K, F⟩ y).map p.snapshotRelation) := by
  obtain ⟨_, hrow⟩ := h.entity_row hc (h.blockEntity_mem (List.getElem?_eq_getElem hy)) rfl
  have hfrom := h.rowsFrom (l := Selected.blockKey ⟨C.module a.id, K, F⟩ y) hs hrow rfl
    (h.entityId_eq _) (Selected.blockKey_scoped _ y).colon_mem "llvm.control-dependence"
  unfold Tables.guardRelations
  refine (List.perm_insertionSort _ _).trans (List.Perm.of_eq ?_)
  rw [← hfrom]
  refine List.filter_congr fun r hr => ?_
  obtain ⟨x, hx⟩ := entity_of_mem hc (hc.relationRefs r hr).2.2.1
  have hsome : (t.entity (guardTerminator true r)).isSome = true := by
    rw [guardTerminator, if_pos rfl, hx]
    rfl
  rw [if_pos rfl, hsome, Bool.and_true]

end Block

/-! ## 4. The answer -/

section Answer

variable {C : Contents} {db db' : Database} {a : Artifact} {K y : Nat} {F : Function} {V : Value}
  {exits : Nat → Prop} {env : Environment} {adapter : Adapter} {d : MaterializeDraw} {budget : Int}
  {out : Envelope (List GuardRow)}

/-- **`guards` follows the module.** After every history of unambiguous modules, what `guards`
    answers for a block, or for an instruction in it, are edges of the module that guard the
    block, with their branches, none of them twice; it answers all of them where it is not cut
    off, and there is nothing it does not know. -/
theorem guards_follow_module (h : History C db) (hu : C.Unambiguous)
    (hans : C.Answered db.toTables adapter) (hst : db.Stores a)
    (hF : (C.module a.id).functions[K]? = some F)
    (hT : IsPostDominatorTree F exits (C.postDominators F)) (hy : y < F.blocks.length)
    (hV : Selected.InBlock ⟨C.module a.id, K, F⟩ y V)
    (hcall : guardsQuery env adapter.functionGraph d
      (entityId a (Selected.name ⟨C.module a.id, K, F⟩ V)) budget db = (db', .ok out)) :
    (∀ row ∈ out.result, Selected.GuardOf ⟨C.module a.id, K, F⟩ exits a y row) ∧
    (out.result.map fun row => (row.terminator, row.requiredSuccessor)).Nodup ∧
    (out.truncated = false → ∀ row, Selected.GuardOf ⟨C.module a.id, K, F⟩ exits a y row →
      row ∈ out.result) ∧ out.unknowns = [] := by
  obtain ⟨hkey, hscoped⟩ := hV.key hy
  have hd : F.isDeclaration = false := by
    unfold Function.isDeclaration
    rw [List.isEmpty_eq_false_iff]
    exact List.ne_nil_of_length_pos (by omega)
  obtain ⟨hens, hread⟩ := afterEnsure_ok hcall
  unfold readGuards at hread
  obtain ⟨e, he, hread⟩ := bind_eq_ok hread
  obtain ⟨inv, _, hread⟩ := bind_eq_ok hread
  have he := entityOrThrow_ok he
  obtain ⟨hconf, p, hp, hscope⟩ := h.shown_for hu hans hst hF hd (.inr hscoped)
    (Selected.known_of_keys hkey) hens he
  have hexact : guardsExact db'.toTables e = true := by
    unfold guardsExact
    rw [hscope, Option.any_some, hp.completed]
  have hperm := hp.guardRelations_perm hconf.sound db'.constraints hy
  have hrows : db'.guardRows e (entityId a (Selected.name ⟨C.module a.id, K, F⟩ V)) budget =
      limit (probe budget) (db'.guardRelations true
        (entityId a (Selected.blockKey ⟨C.module a.id, K, F⟩ y))) := by
    unfold Tables.guardRows
    rw [hexact, hp.guardedBlock_eq hT db'.constraints hy hV he]
  simp only [hexact, hrows, if_true] at hread
  cases hread
  -- a row found is the row of an edge
  have hmem (r : Relation) : r ∈ db'.guardRelations true
      (entityId a (Selected.blockKey ⟨C.module a.id, K, F⟩ y)) ↔
        ∃ x s z B, F.blocks[x]? = some B ∧ B.successors[s]? = some z ∧
          PostDominates F.Edge exits y z ∧ ¬ PostDominates F.Edge exits y x ∧
          r = p.snapshotRelation (Selected.controlRow ⟨C.module a.id, K, F⟩ B x y z s) := by
    rw [hperm.mem_iff, List.mem_map, hp.relations_eq]
    simp only [List.mem_filter, Bool.and_eq_true, decide_eq_true_eq]
    constructor
    · rintro ⟨q, hq, rfl⟩
      obtain ⟨x, s, z, B, hB, hs, hpost, hnot, rfl⟩ :=
        (Selected.mem_controlRows (S := ⟨C.module a.id, K, F⟩) hT).mp hq
      exact ⟨x, s, z, B, hB, hs, hpost, hnot, rfl⟩
    · rintro ⟨x, s, z, B, hB, hs, hpost, hnot, rfl⟩
      exact ⟨_, (Selected.mem_controlRows (S := ⟨C.module a.id, K, F⟩) hT).mpr
        ⟨x, s, z, B, hB, hs, hpost, hnot, rfl⟩, rfl⟩
  refine ⟨fun row hrow => ?_, ?_, fun hcut row hrow => ?_, rfl⟩
  · obtain ⟨r, hr, rfl⟩ := List.mem_map.mp hrow
    obtain ⟨x, s, z, B, hB, hs, hpost, hnot, rfl⟩ := (hmem r).mp (visible_sublist.subset hr)
    exact ⟨x, s, z, B, hB, hs, hpost, hnot, hp.guardRow_eq hconf.sound db'.constraints hB⟩
  · have hnodup := Selected.controlRows_nodup (S := ⟨C.module a.id, K, F⟩) hT y
    rw [← hp.relations_eq] at hnodup
    refine List.Nodup.sublist ((visible_sublist.map _).map _) (((hperm.map _).map _).nodup_iff.mpr ?_)
    rw [List.Nodup, List.pairwise_map] at hnodup
    rw [List.map_map, List.map_map, List.Nodup, List.pairwise_map]
    refine hnodup.imp_of_mem fun {q q'} hq hq' hne heq => hne ?_
    have hcolon {q : RelationRecord} (hq : q ∈ p.relations.filter fun q =>
        q.kind = "llvm.control-dependence" &&
          q.src = Selected.blockKey ⟨C.module a.id, K, F⟩ y) : ':' ∈ q.dst.toList := by
      have hq := (List.mem_filter.mp hq).1
      rw [hp.relations_eq] at hq
      exact (Selected.relation_declared (S := ⟨C.module a.id, K, F⟩) (C.graphs F) hq).2.2.colon_mem
    obtain ⟨hdst, hord⟩ := Prod.mk.inj heq
    have hdst : (p.snapshotRelation q).dstId = (p.snapshotRelation q').dstId := hdst
    rw [hp.dstId, hp.dstId] at hdst
    exact Prod.ext (entityId_right_inj (hcolon hq) (hcolon hq') hdst) hord
  · obtain ⟨x, s, z, B, hB, hs, hpost, hnot, rfl⟩ := hrow
    refine List.mem_map.mpr ⟨_, ?_, hp.guardRow_eq hconf.sound db'.constraints (y := y) hB⟩
    rw [visible_whole hcut]
    exact (hmem _).mpr ⟨x, s, z, B, hB, hs, hpost, hnot, rfl⟩

end Answer

/-! ## 5. The guard of a branch -/

namespace Branch

/-- `guards block:f0:1 --budget 10`. -/
def guards : Database × Except Thrown (Envelope (List GuardRow)) :=
  guardsQuery Sample.environment adapter.functionGraph (Collision.draw "b")
    (entityId Sample.artifact (Selected.name ⟨module, 0, function⟩ (.block 1))) 10 analysed

def entry : Block := ⟨"entry", [], instruction "br", .conditionalBranch, [1, 2]⟩

def uncut : Except Thrown (Envelope (List GuardRow)) → Bool
  | .ok out => !out.truncated
  | .error _ => false

end Branch

open Branch in
/-- The block `then` is guarded by the first edge of `entry`. -/
theorem guards_follow_module_branch : ∃ out, guards.2 = .ok out ∧
    Selected.guardRow ⟨module, 0, function⟩ Sample.artifact entry 0 0 1 ∈ out.result := by
  have hok : uncut guards.2 = true := by decide +kernel
  generalize hcall : guards = call at hok ⊢
  obtain ⟨db', e | out⟩ := call
  · cases hok
  · have hanswer := guards_follow_module analysed_history unambiguous (answered _) analysed_stores rfl
      tree_isPostDominatorTree (y := 1) (by decide) (.inl rfl) hcall
    have hcut : out.truncated = false := by
      simpa [uncut] using hok
    refine ⟨out, rfl, hanswer.2.2.1 hcut _ ?_⟩
    exact ⟨0, 0, 1, entry, rfl, rfl, PostDominates.refl 1, fun h => by
      rcases (postDominates_iff (by decide) 1).mp h with h | h
      · exact absurd h (by decide)
      · exact absurd h (by decide), rfl⟩

end Irez
