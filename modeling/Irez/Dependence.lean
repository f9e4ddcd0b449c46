/-
  File:      Irez/Dependence.lean
  Subject:   Slices against the module (adapter.cpp 120-424, service.cpp 1187-1364).

  The rows of a function are those of its stream, and a stream says of the module what the
  module says of itself: its operands, edges, calls, and what its branches control. A slice that is
  not cut off is then the closure of these, among values, and no row or handle has a part in it.

  * `Selected.Linked` -- what the module has between two values, for each kind of relation;
  * `Selected.mem_graph_linked` -- the relations of a stream are that;
  * `Contents.Shows.neighbours_iff` -- so are the steps of a slice;
  * `slice_follows_module` -- a slice visits what its target is linked to.
-/
import Irez.Boundaries
import Irez.Repeats
import Irez.Slices

open Irez.Basis

namespace Irez

/-! ## 1. Links between values -/

namespace Selected

variable {S : Selected} {T : PostDominatorTree} {exits : Nat → Prop}

/-- What the module has between two values of a function, for each kind of relation. -/
inductive Linked (S : Selected) (exits : Nat → Prop) : String → Value → Value → Prop where
  | argument {i : Nat} (hi : i < S.function.arguments.length) :
      Linked S exits "llvm.contains" (.function S.ordinal) (.argument i)
  | block {b : Nat} (hb : b < S.function.blocks.length) :
      Linked S exits "llvm.contains" (.function S.ordinal) (.block b)
  | instruction {b j : Nat} {B : Block} (hB : S.function.blocks[b]? = some B)
      (hj : j < B.instructions.length) :
      Linked S exits "llvm.contains" (.block b) (.instruction (S.function.firstInstruction b + j))
  | operand {i o : Nat} {I : Instruction} {V : Value} (hI : S.function.instructions[i]? = some I)
      (hV : I.operands[o]? = some V) : Linked S exits "llvm.operand" (.instruction i) V
  | global {i o g : Nat} {I : Instruction} (hI : S.function.instructions[i]? = some I)
      (hV : I.operands[o]? = some (.global g)) :
      Linked S exits "llvm.references-global" (.instruction i) (.global g)
  | call {i c : Nat} {I : Instruction} (hI : S.function.instructions[i]? = some I)
      (hc : I.call.bind callee = some c) :
      Linked S exits "llvm.calls" (.instruction i) (.function c)
  | successor {x s z : Nat} (hz : S.function.successor x s = some z) :
      Linked S exits "llvm.cfg-successor" (.instruction (S.function.terminatorNumber x)) (.block z)
  | control {x s y : Nat} (hy : Controls S.function exits y x s) :
      Linked S exits "llvm.control-dependence" (.block y)
        (.instruction (S.function.terminatorNumber x))

/-! ## 2. Values and their keys -/

/-- The value has a key in the stream. -/
def Known (S : Selected) (V : Value) : Prop := (S.named S.structureEmitter V).isSome = true

theorem named_of_keys {V : Value} {k : String} (h : S.keys V = some k) :
    S.named S.structureEmitter V = some k := by
  unfold named
  rw [h]
  rfl

theorem name_of_keys {V : Value} {k : String} (h : S.keys V = some k) : S.name V = k :=
  S.reads_name V k (named_of_keys h)

theorem known_of_keys {V : Value} {k : String} (h : S.keys V = some k) : S.Known V := by
  unfold Known
  rw [named_of_keys h]
  rfl

theorem Known.named {V : Value} (h : S.Known V) : S.named S.structureEmitter V = some (S.name V) := by
  obtain ⟨k, hk⟩ := Option.isSome_iff_exists.mp h
  rw [hk, S.reads_name V k hk]

theorem Known.colon_mem {V : Value} (h : S.Known V) : ':' ∈ (S.name V).toList :=
  (Declared.named (T := flatTree 0) h.named).colon_mem

/-- **Two values have two keys.** -/
theorem Known.name_inj {V W : Value} (hV : S.Known V) (hW : S.Known W) (h : S.name V = S.name W) :
    V = W :=
  (structureEmitter_ledger S).named_inj hV.named (h ▸ hW.named)

theorem known_of_value {V : Value} (h : V ∈ S.values) : S.Known V := by
  unfold Known
  rw [named_name h]
  rfl

theorem keys_block {b : Nat} (hb : b < S.function.blocks.length) :
    S.keys (.block b) = some (S.blockKey b) := if_pos hb

theorem keys_instruction {i : Nat} (hi : i < S.function.instructions.length) :
    S.keys (.instruction i) = some (S.instructionKey i) := if_pos hi

theorem keys_argument {i : Nat} (hi : i < S.function.arguments.length) :
    S.keys (.argument i) = some (S.argumentKey i) := if_pos hi

theorem keys_function (hS : S.ordinal < S.module.functions.length) :
    S.keys (.function S.ordinal) = some S.functionKey := if_pos hS

/-- The instructions of a block in the function. -/
theorem instruction_at {b j : Nat} {B : Block} {I : Instruction}
    (hB : S.function.blocks[b]? = some B) (hI : B.instructions[j]? = some I) :
    S.function.instructions[S.function.firstInstruction b + j]? = some I := by
  have hu : (B, b, S.function.firstInstruction b) ∈ S.numbered :=
    mem_numberBlocks.mpr ⟨b, hB, by omega, by simp [Function.firstInstruction]⟩
  have hm : (I, S.function.firstInstruction b + j) ∈ S.function.instructions.zipIdx := by
    rw [← numbered_instructions]
    refine List.mem_flatMap.mpr ⟨_, hu, ?_⟩
    rw [List.mem_zipIdx_iff_le_and_getElem?_sub]
    exact ⟨Nat.le_add_right _ _, by rw [Nat.add_sub_cancel_left]; exact hI⟩
  exact List.mem_zipIdx_iff_getElem?.mp hm

theorem terminator_at {x : Nat} {B : Block} (hB : S.function.blocks[x]? = some B) :
    S.function.instructions[S.function.terminatorNumber x]? = some B.terminator := by
  have hn : S.function.terminatorNumber x = S.function.firstInstruction x + B.body.length := by
    unfold Function.terminatorNumber
    rw [hB]
    rfl
  rw [hn]
  refine instruction_at hB ?_
  unfold Block.instructions
  rw [List.getElem?_append_right le_rfl, Nat.sub_self]
  rfl

/-! ## 3. The relations of a stream -/

theorem Linked.known {k : String} {V W : Value} (hT : IsPostDominatorTree S.function exits T)
    (hS : S.ordinal < S.module.functions.length) (h : S.Linked exits k V W) :
    S.Known V ∧ S.Known W := by
  have hinstruction {i : Nat} {I : Instruction} (hI : S.function.instructions[i]? = some I) :
      S.Known (.instruction i) :=
    known_of_keys (keys_instruction (List.getElem?_eq_some_iff.mp hI).1)
  have hblock {b : Nat} (hb : b < S.function.blocks.length) : S.Known (.block b) :=
    known_of_keys (keys_block hb)
  cases h with
  | argument hi => exact ⟨known_of_keys (keys_function hS), known_of_keys (keys_argument hi)⟩
  | block hb => exact ⟨known_of_keys (keys_function hS), hblock hb⟩
  | instruction hB hj =>
    exact ⟨hblock (List.getElem?_eq_some_iff.mp hB).1,
      hinstruction (instruction_at hB (List.getElem?_eq_getElem hj))⟩
  | operand hI hV =>
    exact ⟨hinstruction hI, known_of_value (value_of_instruction hI
      (List.mem_append_left _ (List.mem_of_getElem? hV)))⟩
  | global hI hV =>
    exact ⟨hinstruction hI, known_of_value (value_of_instruction hI
      (List.mem_append_left _ (List.mem_of_getElem? hV)))⟩
  | call hI hc =>
    refine ⟨hinstruction hI, known_of_value (value_of_instruction hI (List.mem_append_right _ ?_))⟩
    unfold calledValues
    rw [hc]
    exact List.mem_singleton.mpr rfl
  | successor hz =>
    obtain ⟨B, hB, hs⟩ := Function.successor_eq_some.mp hz
    exact ⟨hinstruction (terminator_at hB),
      hblock (S.function.successors_lt B (List.mem_of_getElem? hB) _ (List.mem_of_getElem? hs))⟩
  | @control x s y hy =>
    obtain ⟨z, hz, hpost, hnot⟩ := hy
    obtain ⟨B, hB, _⟩ := Function.successor_eq_some.mp hz
    have hlt : y < S.function.blocks.length :=
      controlled_lt hT x z ⟨s, hz⟩ y ((mem_controlled hT ⟨s, hz⟩ y).mpr ⟨hpost, hnot⟩)
    exact ⟨hblock hlt, hinstruction (terminator_at hB)⟩

/-- The blocks of a function with their numbers. -/
theorem mem_numbered_iff {B : Block} {b first : Nat} :
    (B, b, first) ∈ S.numbered ↔
      S.function.blocks[b]? = some B ∧ first = S.function.firstInstruction b := by
  unfold numbered
  rw [mem_numberBlocks]
  constructor
  · rintro ⟨j, hj, hb, rfl⟩
    obtain rfl : b = j := by omega
    exact ⟨hj, Nat.zero_add _⟩
  · rintro ⟨hB, rfl⟩
    exact ⟨b, hB, (Nat.zero_add b).symm, (Nat.zero_add _).symm⟩

/-- The instructions of a block are those of the function from its first one on. -/
theorem mem_blockInstructions {B : Block} {b i : Nat} {I : Instruction}
    {successors : List RelationRecord}
    (h : ((I, i), successors) ∈ S.blockInstructions (B, b, S.function.firstInstruction b)) :
    ∃ j, B.instructions[j]? = some I ∧ i = S.function.firstInstruction b + j := by
  have hm : (I, i) ∈ B.instructions.zipIdx (S.function.firstInstruction b) := by
    have hm := List.mem_map_of_mem (f := (·.1)) h
    rwa [blockInstructions_map] at hm
  obtain ⟨hle, hI⟩ := List.mem_zipIdx_iff_le_and_getElem?_sub.mp hm
  exact ⟨i - S.function.firstInstruction b, hI, by omega⟩

theorem exists_blockInstructions {B : Block} {b j : Nat} {I : Instruction}
    (hI : B.instructions[j]? = some I) : ∃ successors,
      ((I, S.function.firstInstruction b + j), successors) ∈
        S.blockInstructions (B, b, S.function.firstInstruction b) := by
  have hm : (I, S.function.firstInstruction b + j) ∈
      (S.blockInstructions (B, b, S.function.firstInstruction b)).map (·.1) := by
    rw [blockInstructions_map]
    refine List.mem_zipIdx_iff_le_and_getElem?_sub.mpr ⟨Nat.le_add_right _ _, ?_⟩
    rw [Nat.add_sub_cancel_left]
    exact hI
  obtain ⟨⟨Ii, successors⟩, hm, rfl⟩ := List.mem_map.mp hm
  exact ⟨successors, hm⟩

/-- The last one has the edges of the block. -/
theorem mem_successors {B : Block} {b i : Nat} {I : Instruction} {successors : List RelationRecord}
    {q : RelationRecord} (hB : S.function.blocks[b]? = some B)
    (h : ((I, i), successors) ∈ S.blockInstructions (B, b, S.function.firstInstruction b))
    (hq : q ∈ successors) : ∃ s z, S.function.successor b s = some z ∧
      q = relation "llvm.cfg-successor" (S.instructionKey (S.function.terminatorNumber b))
        (S.blockKey z) (some (s : Int)) (successorAttributes B.terminatorKind s) := by
  have hn : S.function.firstInstruction b + B.body.length = S.function.terminatorNumber b := by
    unfold Function.terminatorNumber
    rw [hB]
    rfl
  rcases List.mem_append.mp h with h | h
  · obtain ⟨_, _, he⟩ := List.mem_map.mp h
    cases he
    exact absurd hq List.not_mem_nil
  · cases List.mem_singleton.mp h
    obtain ⟨⟨z, s⟩, hz, rfl⟩ := List.mem_map.mp hq
    have hs := List.mem_zipIdx_iff_getElem?.mp hz
    have hlt : z < S.function.blocks.length :=
      S.function.successors_lt B (List.mem_of_getElem? hB) z (List.mem_of_getElem? hs)
    refine ⟨s, z, Function.successor_eq_some.mpr ⟨B, hB, hs⟩, ?_⟩
    simp only [hn, keys_block hlt, Option.getD_some]

theorem mem_operandRelations {I : Instruction} {key : String} {κ : Value → String}
    {q : RelationRecord} : q ∈ I.operands.zipIdx.flatMap (S.operandRelations κ I key) ↔
      ∃ (V : Value) (o : Nat), I.operands[o]? = some V ∧
        (q = relation "llvm.operand" key (κ V) (some o) (S.incomingBlock I o) ∨
          (isGlobal V = true ∧ q = relation "llvm.references-global" key (κ V) none [])) := by
  simp only [List.mem_flatMap, Prod.exists, List.mem_zipIdx_iff_getElem?, operandRelations,
    List.mem_append, List.mem_singleton]
  refine exists_congr fun V => exists_congr fun o => and_congr_right fun _ => or_congr_right ?_
  cases isGlobal V with
  | true => simp
  | false => simp

theorem name_instruction {i : Nat} {I : Instruction} (hI : S.function.instructions[i]? = some I) :
    S.name (.instruction i) = S.instructionKey i :=
  name_of_keys (keys_instruction (List.getElem?_eq_some_iff.mp hI).1)

theorem name_block {b : Nat} {B : Block} (hB : S.function.blocks[b]? = some B) :
    S.name (.block b) = S.blockKey b :=
  name_of_keys (keys_block (List.getElem?_eq_some_iff.mp hB).1)

/-- A relation of the stream is a link of the function. -/
theorem linked_of_relation (hT : IsPostDominatorTree S.function exits T)
    (hS : S.ordinal < S.module.functions.length) {q : RelationRecord}
    (hq : q ∈ relationRecords (S.graph T).records) :
    ∃ V W, S.Linked exits q.kind V W ∧ S.name V = q.src ∧ S.name W = q.dst := by
  rw [graph_relations] at hq
  rcases List.mem_append.mp hq with hq | hq
  · rcases List.mem_append.mp hq with hq | hq
    · obtain ⟨⟨A, i⟩, hA, rfl⟩ := List.mem_map.mp hq
      have hi := (List.getElem?_eq_some_iff.mp (List.mem_zipIdx_iff_getElem?.mp hA)).1
      exact ⟨_, _, .argument hi, name_of_keys (keys_function hS), name_of_keys (keys_argument hi)⟩
    · obtain ⟨⟨B, b, first⟩, hu, hq⟩ := List.mem_flatMap.mp hq
      obtain ⟨hB, rfl⟩ := mem_numbered_iff.mp hu
      rcases List.mem_append.mp hq with hq | hq
      · rw [List.mem_singleton.mp hq]
        exact ⟨_, _, .block (List.getElem?_eq_some_iff.mp hB).1,
          name_of_keys (keys_function hS), name_block hB⟩
      · obtain ⟨⟨⟨I, i⟩, successors⟩, hIis, hq⟩ := List.mem_flatMap.mp hq
        obtain ⟨j, hj, rfl⟩ := mem_blockInstructions hIis
        have hI := instruction_at hB hj
        rcases List.mem_append.mp hq with hq | hq
        · rcases List.mem_append.mp hq with hq | hq
          · rcases List.mem_append.mp hq with hq | hq
            · rw [List.mem_singleton.mp hq]
              exact ⟨_, _, .instruction hB (List.getElem?_eq_some_iff.mp hj).1, name_block hB,
                name_instruction hI⟩
            · obtain ⟨V, o, hV, rfl | ⟨hg, rfl⟩⟩ := mem_operandRelations.mp hq
              · exact ⟨_, V, .operand hI hV, name_instruction hI, rfl⟩
              · cases V with
                | global g => exact ⟨_, _, .global hI hV, name_instruction hI, rfl⟩
                | _ => cases hg
          · obtain ⟨s, z, hz, rfl⟩ := mem_successors hB hIis hq
            obtain ⟨B', hB', hs⟩ := Function.successor_eq_some.mp hz
            have hlt := S.function.successors_lt B' (List.mem_of_getElem? hB') z
              (List.mem_of_getElem? hs)
            exact ⟨_, _, .successor hz, name_instruction (terminator_at hB'),
              name_of_keys (keys_block hlt)⟩
        · obtain ⟨c, hc, rfl⟩ := mem_callRelations.mp hq
          exact ⟨_, _, .call hI hc, name_instruction hI, rfl⟩
  · obtain ⟨x, s, z, y, B, hB, hs, hy, he⟩ :=
      mem_controlDependence.mp (mem_relationRecords.mp hq)
    have hz : S.function.successor x s = some z := Function.successor_eq_some.mpr ⟨B, hB, hs⟩
    have hlt := controlled_lt hT x z ⟨s, hz⟩ y hy
    obtain ⟨hpost, hnot⟩ := (mem_controlled hT ⟨s, hz⟩ y).mp hy
    cases he
    refine ⟨_, _, .control ⟨z, hz, hpost, hnot⟩, ?_, name_instruction (terminator_at hB)⟩
    rw [name_of_keys (keys_block hlt), keys_block hlt]
    rfl

/-- A link of the function is a relation of the stream. -/
theorem relation_of_linked (hT : IsPostDominatorTree S.function exits T)
    (hS : S.ordinal < S.module.functions.length) {k : String} {V W : Value}
    (h : S.Linked exits k V W) : ∃ q ∈ relationRecords (S.graph T).records,
      q.kind = k ∧ q.src = S.name V ∧ q.dst = S.name W := by
  rw [graph_relations]
  -- what a block and an instruction add
  have hinBlock {b : Nat} {B : Block} (hB : S.function.blocks[b]? = some B) {q : RelationRecord}
      (hq : q ∈ S.blockRelations S.name (B, b, S.function.firstInstruction b)) :
      q ∈ S.structureRelations S.name ++ S.controlRelations T :=
    List.mem_append_left _ (List.mem_append_right _
      (List.mem_flatMap.mpr ⟨_, mem_numbered_iff.mpr ⟨hB, rfl⟩, hq⟩))
  have hinInstruction {i : Nat} {I : Instruction} (hI : S.function.instructions[i]? = some I)
      {q : RelationRecord} (hq : ∀ blockKey successors,
        q ∈ S.instructionRelations S.name blockKey successors (I, i)) :
      q ∈ S.structureRelations S.name ++ S.controlRelations T := by
    obtain ⟨⟨Ii, successors⟩, hIis, rfl⟩ := mem_numberedInstructions hI
    obtain ⟨⟨B, b, first⟩, hu, hIis⟩ := List.mem_flatMap.mp hIis
    obtain ⟨hB, rfl⟩ := mem_numbered_iff.mp hu
    exact hinBlock hB (List.mem_append_right _ (List.mem_flatMap.mpr ⟨_, hIis, hq _ _⟩))
  cases h with
  | @argument i hi =>
    refine ⟨containsRelation S.functionKey (S.argumentKey i), List.mem_append_left _
      (List.mem_append_left _ (List.mem_map.mpr ⟨(S.function.arguments[i], i), ?_, rfl⟩)), rfl,
      (name_of_keys (keys_function hS)).symm, (name_of_keys (keys_argument hi)).symm⟩
    exact List.mem_zipIdx_iff_getElem?.mpr (List.getElem?_eq_getElem hi)
  | @block b hb =>
    have hB : S.function.blocks[b]? = some S.function.blocks[b] := List.getElem?_eq_getElem hb
    exact ⟨containsRelation S.functionKey (S.blockKey b),
      hinBlock hB (List.mem_append_left _ List.mem_cons_self), rfl,
      (name_of_keys (keys_function hS)).symm, (name_block hB).symm⟩
  | @instruction b j B hB hj =>
    have hI : B.instructions[j]? = some B.instructions[j] := List.getElem?_eq_getElem hj
    obtain ⟨successors, hIis⟩ := exists_blockInstructions (S := S) (b := b) hI
    refine ⟨containsRelation (S.blockKey b) (S.instructionKey (S.function.firstInstruction b + j)),
      hinBlock hB (List.mem_append_right _ (List.mem_flatMap.mpr ⟨_, hIis, ?_⟩)), rfl,
      (name_block hB).symm, (name_instruction (instruction_at hB hI)).symm⟩
    exact List.mem_append_left _ (List.mem_append_left _ (List.mem_append_left _ List.mem_cons_self))
  | @operand i o I _ hI hV =>
    refine ⟨relation "llvm.operand" (S.instructionKey i) (S.name W) (some (o : Int))
      (S.incomingBlock I o), hinInstruction hI fun _ _ => ?_, rfl, (name_instruction hI).symm, rfl⟩
    exact List.mem_append_left _ (List.mem_append_left _ (List.mem_append_right _
      (mem_operandRelations.mpr ⟨W, o, hV, .inl rfl⟩)))
  | @global i o g I hI hV =>
    refine ⟨relation "llvm.references-global" (S.instructionKey i) (S.name (.global g)) none [],
      hinInstruction hI fun _ _ => ?_, rfl, (name_instruction hI).symm, rfl⟩
    exact List.mem_append_left _ (List.mem_append_left _ (List.mem_append_right _
      (mem_operandRelations.mpr ⟨_, o, hV, .inr ⟨rfl, rfl⟩⟩)))
  | @call i c I hI hc =>
    refine ⟨relation "llvm.calls" (S.instructionKey i) (S.name (.function c)) none
      [("external", .bool (S.isDeclaration c))], hinInstruction hI fun _ _ => ?_, rfl,
      (name_instruction hI).symm, rfl⟩
    exact List.mem_append_right _ (mem_callRelations.mpr ⟨c, hc, rfl⟩)
  | @successor x s z hz =>
    obtain ⟨B, hB, hs⟩ := Function.successor_eq_some.mp hz
    have hlt := S.function.successors_lt B (List.mem_of_getElem? hB) z (List.mem_of_getElem? hs)
    have hn : S.function.firstInstruction x + B.body.length = S.function.terminatorNumber x := by
      unfold Function.terminatorNumber
      rw [hB]
      rfl
    have hrow : relation "llvm.cfg-successor" (S.instructionKey (S.function.terminatorNumber x))
        (S.blockKey z) (some (s : Int)) (successorAttributes B.terminatorKind s) ∈
          S.successorRows B (S.function.firstInstruction x + B.body.length) := by
      refine List.mem_map.mpr ⟨(z, s), List.mem_zipIdx_iff_getElem?.mpr hs, ?_⟩
      simp only [hn, keys_block hlt, Option.getD_some]
    refine ⟨_, hinBlock hB (List.mem_append_right _ (List.mem_flatMap.mpr ⟨_,
      List.mem_append_right _ List.mem_cons_self,
      List.mem_append_left _ (List.mem_append_right _ hrow)⟩)), rfl,
      (name_instruction (terminator_at hB)).symm, (name_of_keys (keys_block hlt)).symm⟩
  | @control x s y hy =>
    obtain ⟨z, hz, hpost, hnot⟩ := hy
    obtain ⟨B, hB, hs⟩ := Function.successor_eq_some.mp hz
    have hmem := (mem_controlled hT ⟨s, hz⟩ y).mpr ⟨hpost, hnot⟩
    have hlt := controlled_lt hT x z ⟨s, hz⟩ y hmem
    refine ⟨_, List.mem_append_right _ (mem_relationRecords.mpr (mem_controlDependence.mpr
      ⟨x, s, z, y, B, hB, hs, hmem, rfl⟩)), rfl, ?_, (name_instruction (terminator_at hB)).symm⟩
    rw [name_of_keys (keys_block hlt), keys_block hlt]
    rfl

/-- **The relations of a stream are the links of its function**, between the keys of the values. -/
theorem mem_graph_linked (hT : IsPostDominatorTree S.function exits T)
    (hS : S.ordinal < S.module.functions.length) {k src dst : String} :
    (∃ q ∈ relationRecords (S.graph T).records, q.kind = k ∧ q.src = src ∧ q.dst = dst) ↔
      ∃ V W, S.Linked exits k V W ∧ S.name V = src ∧ S.name W = dst := by
  constructor
  · rintro ⟨q, hq, rfl, rfl, rfl⟩
    exact linked_of_relation hT hS hq
  · rintro ⟨V, W, h, rfl, rfl⟩
    exact relation_of_linked hT hS h

end Selected

/-! ## 4. The steps of a slice -/

/-- A step of a slice among values: along a link of a kind that was requested, or against it. -/
def Selected.Follows (S : Selected) (exits : Nat → Prop) (direction : String) (relations : List String)
    (V W : Value) : Prop :=
  ∃ k ∈ relations.map relationKind,
    if direction = "backward" then S.Linked exits k V W else S.Linked exits k W V

section Steps

variable {C : Contents} {t : Tables} {a : Artifact} {K : Nat} {F : Function} {p : Publish}
  {exits : Nat → Prop} {e : Entity} {direction : String} {relations : List String}

theorem Selected.Follows.known {S : Selected} {T : PostDominatorTree} {V W : Value}
    (hT : IsPostDominatorTree S.function exits T) (hS : S.ordinal < S.module.functions.length)
    (h : S.Follows exits direction relations V W) : S.Known W := by
  obtain ⟨k, _, h⟩ := h
  split at h
  · exact (h.known hT hS).2
  · exact (h.known hT hS).1

/-- The control dependence of a function that is shown is completed. -/
theorem Contents.Shows.completed (h : C.Shows t a K F p) :
    t.completed p.target.handle "control_dependence" = true := by
  have hrow : p.snapshotCapability ("control_dependence", "exact") ∈
      t.capabilitiesOf p.target.handle := by
    rw [h.snapshot.capabilities]
    exact List.mem_map_of_mem (by decide)
  obtain ⟨hm, hf⟩ := List.mem_filter.mp hrow
  refine List.any_eq_true.mpr ⟨_, hm, ?_⟩
  rw [hf]
  rfl

/-- **The graph of a slice** is made of the function's relations of the kinds requested. -/
theorem Contents.Shows.mem_slicedGraph (h : C.Shows t a K F p) (hscope : e.scope = some p.target.handle)
    {r : Relation} : r ∈ t.slicedGraph e relations ↔
      ∃ q ∈ p.relations, q.kind ∈ relations.map relationKind ∧ r = p.snapshotRelation q := by
  have hkinds : traversedKinds t e.scope (requestedKinds relations) = requestedKinds relations := by
    unfold traversedKinds
    rw [hscope, Option.any_some, h.completed, if_pos rfl]
  have hrow : r ∈ t.slicedGraph e relations ↔
      r ∈ t.relationsOf p.target.handle ∧ r.kind ∈ relations.map relationKind := by
    unfold Tables.slicedGraph Tables.sliceEdges Tables.relationsOf
    rw [hkinds, hscope, ← mem_sortedUnique (v := r.kind)]
    change _ ↔ _ ∧ r.kind ∈ requestedKinds relations
    by_cases hnil : requestedKinds relations = []
    · simp [hnil]
    · simp [hnil, and_assoc]
  rw [hrow, h.snapshot.relations, List.mem_map]
  constructor
  · rintro ⟨⟨q, hq, rfl⟩, hk⟩
    exact ⟨q, hq, hk, rfl⟩
  · rintro ⟨q, hq, hk, rfl⟩
    exact ⟨⟨q, hq, rfl⟩, hk⟩

theorem Contents.Shows.ordinal_lt (h : C.Shows t a K F p) : K < (C.module a.id).functions.length :=
  (List.getElem?_eq_some_iff.mp h.function).1

/-- Two values have two handles. -/
theorem Contents.handle_inj {S : Selected} {V W : Value} (hV : S.Known V) (hW : S.Known W)
    (h : entityId a (S.name V) = entityId a (S.name W)) : V = W :=
  hV.name_inj hW (entityId_right_inj hV.colon_mem hW.colon_mem h)

/-- **The neighbours of a value in a slice** are what it is linked to. -/
theorem Contents.Shows.neighbours_iff (h : C.Shows t a K F p)
    (hT : IsPostDominatorTree F exits (C.postDominators F)) (hscope : e.scope = some p.target.handle)
    {V : Value} (hV : Selected.Known ⟨C.module a.id, K, F⟩ V) {v : String} :
    v ∈ neighbours (t.slicedGraph e relations) direction
        (entityId a (Selected.name ⟨C.module a.id, K, F⟩ V)) ↔
      ∃ W, Selected.Follows ⟨C.module a.id, K, F⟩ exits direction relations V W ∧
        entityId a (Selected.name ⟨C.module a.id, K, F⟩ W) = v := by
  have hlinked (k src dst : String) :
      (∃ q ∈ p.relations, q.kind = k ∧ q.src = src ∧ q.dst = dst) ↔
        ∃ V W, Selected.Linked ⟨C.module a.id, K, F⟩ exits k V W ∧
          Selected.name ⟨C.module a.id, K, F⟩ V = src ∧ Selected.name ⟨C.module a.id, K, F⟩ W = dst := by
    rw [h.relations_eq]
    exact Selected.mem_graph_linked (S := ⟨C.module a.id, K, F⟩) hT h.ordinal_lt
  have hknown {k : String} {V W : Value} (hl : Selected.Linked ⟨C.module a.id, K, F⟩ exits k V W) :=
    hl.known hT h.ordinal_lt
  rw [mem_neighbours]
  unfold Selected.Follows Relation.frontier Relation.nxt
  constructor
  · rintro ⟨r, hr, hu, hv⟩
    obtain ⟨q, hq, hk, rfl⟩ := (h.mem_slicedGraph hscope).mp hr
    rw [h.srcId, h.dstId] at hu hv
    obtain ⟨X, Y, hl, hX, hY⟩ := (hlinked _ _ _).mp ⟨q, hq, rfl, rfl, rfl⟩
    rw [← hX, ← hY] at hu hv
    by_cases hd : direction = "backward"
    · rw [if_pos hd] at hu hv
      obtain rfl := handle_inj (hknown hl).1 hV hu
      exact ⟨Y, ⟨_, hk, by rwa [if_pos hd]⟩, hv⟩
    · rw [if_neg hd] at hu hv
      obtain rfl := handle_inj (hknown hl).2 hV hu
      exact ⟨X, ⟨_, hk, by rwa [if_neg hd]⟩, hv⟩
  · rintro ⟨W, ⟨k, hk, hl⟩, rfl⟩
    by_cases hd : direction = "backward"
    · rw [if_pos hd] at hl
      obtain ⟨q, hq, rfl, hsrc, hdst⟩ := (hlinked _ _ _).mpr ⟨V, W, hl, rfl, rfl⟩
      refine ⟨_, (h.mem_slicedGraph hscope).mpr ⟨q, hq, hk, rfl⟩, ?_, ?_⟩
      · rw [if_pos hd, h.srcId, hsrc]
      · rw [if_pos hd, h.dstId, hdst]
    · rw [if_neg hd] at hl
      obtain ⟨q, hq, rfl, hsrc, hdst⟩ := (hlinked _ _ _).mpr ⟨W, V, hl, rfl, rfl⟩
      refine ⟨_, (h.mem_slicedGraph hscope).mpr ⟨q, hq, hk, rfl⟩, ?_, ?_⟩
      · rw [if_neg hd, h.dstId, hdst]
      · rw [if_neg hd, h.srcId, hsrc]

end Steps

/-! ## 5. Slices of a module -/

/-- The value lies in the function, or is the function. -/
def Selected.Inside (S : Selected) (V : Value) : Prop :=
  V = .function S.ordinal ∨ ScopedTo (Irez.functionKey S.ordinal) (S.name V)

/-- What a slice of the value is for: the values it is linked to by the relations requested. -/
def Selected.Related (S : Selected) (exits : Nat → Prop) (direction : String)
    (relations : List String) : Value → Value → Prop :=
  Relation.ReflTransGen (S.Follows exits direction relations)

section Module

variable {C : Contents} {db db' : Database} {a : Artifact} {K : Nat} {F : Function} {V : Value}
  {exits : Nat → Prop} {e : Entity} {direction : String} {relations : List String}
  {env : Environment} {adapter : Adapter} {d : MaterializeDraw} {budgetNodes budgetDepth : Int}
  {out : SliceResponse}

/-- The function of a value inside it. -/
theorem Conforms.home_of_value {t : Tables} (h : Conforms C t) (hc : t.Constraints) (ha : t.Stores a)
    (he : e ∈ t.entities) (hK : K < (C.module a.id).functions.length)
    (hV : Selected.Inside ⟨C.module a.id, K, F⟩ V)
    (hknown : Selected.Known ⟨C.module a.id, K, F⟩ V)
    (hid : e.id = entityId a (Selected.name ⟨C.module a.id, K, F⟩ V)) :
    e.artifactId = a.id ∧ e.home = some (entityId a (functionLocal (functionKey K))) ∧
      e.scope = some (entityId a (functionLocal (functionKey K))) := by
  obtain ⟨hart, hlocal⟩ := Prod.mk.inj ((h.id_iff hc ha he hknown.colon_mem).mp hid)
  obtain ⟨b, hb, hbid, hbsha⟩ := ha
  obtain ⟨_, hp⟩ := h.sound.id_of_entity hc hb he (hart.trans hbid.symm)
  rcases hV with rfl | hscoped
  · have hname : Selected.name ⟨C.module a.id, K, F⟩ (.function K) = functionLocal (functionKey K) :=
      Selected.name_function (S := ⟨C.module a.id, K, F⟩) hK
    obtain ⟨hk, ho⟩ := hp.of_functionLocal (hlocal.trans hname)
    rw [hname] at hid
    refine ⟨hart, ?_, ?_⟩
    · unfold Entity.home
      rw [if_pos hk, hid]
    · unfold Entity.scope
      rw [ho, ← hid]
      exact if_pos hk
  · have ho : e.functionId = some (entityId a (functionLocal (functionKey K))) := by
      rw [entityId_congr hbsha.symm]
      refine (h.sound.owner_iff hc hb he (functionKey K)).mpr ⟨hart.trans hbid.symm, ?_⟩
      rw [show e.localKey = _ from hlocal]
      exact ⟨colon_not_mem_functionKey K, hscoped⟩
    unfold Entity.scope
    rw [ho]
    exact ⟨hart, h.home_of_owner he ho, rfl⟩

/-- **The function of a value is shown** after the materialization on demand for the value. -/
theorem History.shown_for (h : History C db) (hu : C.Unambiguous)
    (hans : C.Answered db.toTables adapter) (hst : db.Stores a)
    (hF : (C.module a.id).functions[K]? = some F) (hd : F.isDeclaration = false)
    (hV : Selected.Inside ⟨C.module a.id, K, F⟩ V) (hknown : Selected.Known ⟨C.module a.id, K, F⟩ V)
    (hens : ensureMaterialized env adapter.functionGraph d
      (entityId a (Selected.name ⟨C.module a.id, K, F⟩ V)) db = (db', .ok ()))
    (he : db'.entity (entityId a (Selected.name ⟨C.module a.id, K, F⟩ V)) = some e) :
    Conforms C db'.toTables ∧ ∃ p, C.Shows db'.toTables a K F p ∧ e.scope = some p.target.handle := by
  have hK : K < (C.module a.id).functions.length := (List.getElem?_eq_some_iff.mp hF).1
  obtain ⟨hrun, _⟩ := hans.ensured hens
  have hconf := h.conforms hu
  have hconf' := (h.tail hrun).conforms hu
  obtain ⟨e₀, he₀⟩ := ensure_entity hens he
  have hid₀ : e₀.id = entityId a (Selected.name ⟨C.module a.id, K, F⟩ V) := key_of_lookup he₀
  obtain ⟨_, hhome₀, _⟩ :=
    hconf.home_of_value db.constraints hst (mem_of_lookup he₀) hK hV hknown hid₀
  obtain ⟨p, hp⟩ := hconf.loaded_shows hu hans hst (mem_of_lookup he₀) hF hd (.inr hhome₀) hconf'
    (hst.history hrun) hrun (by rw [hid₀]; exact hens)
  obtain ⟨_, _, hscope⟩ := hconf'.home_of_value db'.constraints (hst.history hrun)
    (mem_of_lookup he) hK hV hknown (key_of_lookup he)
  exact ⟨hconf', p, hp, hscope.trans (congrArg some hp.publishes.handle.symm)⟩

/-- **A slice follows the module.** After every history of unambiguous modules, a slice of a value
    in a function visits only values of the module that the relations requested link to it, as the
    module has them: its operands, calls, edges and parts, and the control dependence of its blocks
    by post-dominance. A slice that is not cut off visits all of them. -/
theorem slice_follows_module (h : History C db) (hu : C.Unambiguous)
    (hans : C.Answered db.toTables adapter) (hst : db.Stores a)
    (hF : (C.module a.id).functions[K]? = some F) (hd : F.isDeclaration = false)
    (hT : IsPostDominatorTree F exits (C.postDominators F))
    (hV : Selected.Inside ⟨C.module a.id, K, F⟩ V)
    (hknown : Selected.Known ⟨C.module a.id, K, F⟩ V)
    (hcall : afterEnsure env adapter.functionGraph d
      (entityId a (Selected.name ⟨C.module a.id, K, F⟩ V))
      (readSliceAll (entityId a (Selected.name ⟨C.module a.id, K, F⟩ V)) direction relations
        budgetNodes budgetDepth) db = (db', .ok out)) :
    (∀ v ∈ out.visitedIds, ∃ W,
      Selected.Related ⟨C.module a.id, K, F⟩ exits direction relations V W ∧
        entityId a (Selected.name ⟨C.module a.id, K, F⟩ W) = v) ∧
    (out.truncated = false → ∀ W,
      Selected.Related ⟨C.module a.id, K, F⟩ exits direction relations V W →
        entityId a (Selected.name ⟨C.module a.id, K, F⟩ W) ∈ out.visitedIds) := by
  have hK : K < (C.module a.id).functions.length := (List.getElem?_eq_some_iff.mp hF).1
  obtain ⟨hens, hread⟩ := afterEnsure_ok hcall
  obtain ⟨e, _, _, he, hexact⟩ := readSliceAll_exact hread
  obtain ⟨_, p, hp, hscope⟩ := h.shown_for hu hans hst hF hd hV hknown hens he
  have hreach (v : String) : Reaches (neighbours (db'.slicedGraph e relations) direction)
      (entityId a (Selected.name ⟨C.module a.id, K, F⟩ V)) v ↔
        ∃ W, Selected.Related ⟨C.module a.id, K, F⟩ exits direction relations V W ∧
          entityId a (Selected.name ⟨C.module a.id, K, F⟩ W) = v :=
    reaches_image (D := Selected.Known ⟨C.module a.id, K, F⟩)
      (fun _ _ hf _ => hf.known hT hK) (fun _ hX _ => hp.neighbours_iff hT hscope hX) hknown
  refine ⟨fun v hv => (hreach v).mp (hexact.reaches hv), fun hcut W hW => ?_⟩
  exact (hexact.whole hcut _).mpr ((hreach _).mpr ⟨W, hW, rfl⟩)

end Module

/-! ## 6. A slice of the branch -/

namespace Branch

/-- Every file holds the module of the branch. -/
def contents : Contents where
  module _ := module
  postDominators F := if F = function then tree else flatTree F.blocks.length
  graphs F := by
    by_cases h : F = function
    · rw [if_pos h, h]
      exact tree_over rfl
    · rw [if_neg h]
      exact flatTree_over F

def adapter : Adapter :=
  ⟨fun _ => .ok (catalog module), fun _ key => .ok (contents.stream "" key)⟩

theorem answered (t : Tables) : contents.Answered t adapter where
  catalogs _ _ _ h := (Except.ok.inj (accept_ok h).1).symm
  graphs _ _ _ h := (Except.ok.inj (accept_ok h).1).symm

theorem unambiguous : contents.Unambiguous := by
  intro _ K F hF _ J hJ
  have hlt : K < 1 := (List.getElem?_eq_some_iff.mp hF).1
  omega

/-- The branch materialized. -/
def analysed : Database :=
  (materialize Sample.environment adapter.functionGraph (Collision.draw "a")
    (entityId Sample.artifact (functionLocal "f0")) false (singleCatalogued module)).1

theorem analysed_attempt : Attempt contents (singleCatalogued module) analysed := by
  have hcall : materialize Sample.environment adapter.functionGraph (Collision.draw "a")
      (entityId Sample.artifact (functionLocal "f0")) false (singleCatalogued module) =
        (analysed, _) := rfl
  exact ((answered _).materialize hcall).1

theorem analysed_history : History contents analysed :=
  (catalogued_history fun _ => rfl).tail (.single analysed_attempt)

theorem analysed_stores : analysed.Stores Sample.artifact :=
  (singleCatalogued_stores module).history (.single analysed_attempt)

/-- `slice block:f0:1 --direction backward --relations operand,control`. -/
def slice : Database × Except Thrown SliceResponse :=
  afterEnsure Sample.environment adapter.functionGraph (Collision.draw "b")
    (entityId Sample.artifact (Selected.name ⟨module, 0, function⟩ (.block 1)))
    (readSliceAll (entityId Sample.artifact (Selected.name ⟨module, 0, function⟩ (.block 1))) "backward"
      ["operand", "control"] 100 12) analysed

theorem controls_then : Controls function (· = 2) 1 0 0 := by
  refine ⟨1, rfl, PostDominates.refl 1, fun h => ?_⟩
  rcases (postDominates_iff (by decide) 1).mp h with h | h
  · exact absurd h (by decide)
  · exact absurd h (by decide)

end Branch

open Branch in
/-- The block `then` hangs on the terminator of `entry`, and its slice shows it. -/
theorem slice_follows_module_branch : ∃ out, slice.2 = .ok out ∧ out.truncated = false ∧
    entityId Sample.artifact (Selected.name ⟨module, 0, function⟩ (.instruction 0)) ∈ out.visitedIds := by
  have hok : Diamond.truncatedOf slice.2 = false := by decide +kernel
  generalize hcall : slice = call at hok ⊢
  obtain ⟨db', e | out⟩ := call
  · cases hok
  · refine ⟨out, rfl, hok, ?_⟩
    have hknown : Selected.Known ⟨module, 0, function⟩ (.block 1) :=
      Selected.known_of_keys (Selected.keys_block (by decide))
    have hinside : Selected.Inside ⟨module, 0, function⟩ (.block 1) := by
      refine .inr ?_
      rw [Selected.name_of_keys (S := ⟨module, 0, function⟩) (Selected.keys_block (by decide))]
      exact Selected.blockKey_scoped _ _
    have hstep : Selected.Follows ⟨module, 0, function⟩ (· = 2) "backward" ["operand", "control"]
        (.block 1) (.instruction 0) := by
      refine ⟨"llvm.control-dependence", by decide, ?_⟩
      rw [if_pos rfl]
      exact Selected.Linked.control (S := ⟨module, 0, function⟩) controls_then
    have hslice := slice_follows_module
      analysed_history unambiguous (answered _) analysed_stores rfl rfl
      tree_isPostDominatorTree hinside hknown hcall
    exact hslice.2 hok _ (.single hstep)

end Irez
