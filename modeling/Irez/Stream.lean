/-
  File:      Irez/Stream.lean
  Subject:   What `function_graph` emits: every record of its stream is of one of a few
             shapes (`Emitted`), and what follows for the keys of the stream.

  * `Extends` -- each step of the source appends records of these shapes; each of its
    loops is one induction that keeps this (`structureEmitter_extends`);
  * `emitted_of_mem_graph` -- every record that is no relation has one of the shapes;
  * `Scoped` -- an entity record whose key is the function's own, a global's, or in the
    interior of the function, as its kind says;
  * `functionGraph_scoped`, `functionGraph_source` -- the entities of the stream are
    scoped to the key of the function selected, its source records name instructions.
-/
import Irez.Adapter
import Irez.Handle

open Irez.Basis

namespace Irez

/-! ## 1. Keys by kind -/

/-- An entity record of the graph of the function `key`: its key is the function's, a
    global's or an interior key, as its kind says. -/
inductive EntityRecord.Scoped (key : String) (e : EntityRecord) : Prop where
  | function (hk : e.kind = "function") (hl : e.localKey = functionLocal key)
  | global (hk : e.kind = "global") (hl : GlobalKey e.localKey)
  | interior (hf : e.kind ≠ "function") (hg : e.kind ≠ "global") (hl : ScopedTo key e.localKey)

theorem EntityRecord.Scoped.colon_mem {key : String} {e : EntityRecord} (h : e.Scoped key) :
    ':' ∈ e.localKey.toList := by
  rcases h with ⟨_, hl⟩ | ⟨_, hl⟩ | ⟨_, _, hl⟩
  · rw [hl]
    exact colon_mem_functionLocal key
  · exact hl.colon_mem
  · exact hl.colon_mem

/-- A key in the interior is a key of the record's kind. -/
theorem EntityRecord.Scoped.interior_iff {key : String} {e : EntityRecord} (h : e.Scoped key) :
    (e.kind ≠ "function" ∧ e.kind ≠ "global") ↔ ScopedTo key e.localKey := by
  rcases h with ⟨hk, hl⟩ | ⟨hk, hl⟩ | ⟨hf, hg, hl⟩
  · exact ⟨fun hn => absurd hk hn.1, fun hs => absurd hl hs.ne_functionLocal⟩
  · exact ⟨fun hn => absurd hk hn.2, fun hs => absurd hl hs.not_global⟩
  · exact ⟨fun _ => hl, fun _ => ⟨hf, hg⟩⟩

theorem EntityRecord.Scoped.of_kind {key k : String} {e : EntityRecord} (hk : e.kind = k)
    (hf : k ≠ "function") (hg : k ≠ "global") (hl : ScopedTo key e.localKey) : e.Scoped key := by
  subst hk
  exact .interior hf hg hl

namespace Selected

variable (S : Selected)

theorem argumentKey_scoped (i : Nat) : ScopedTo (Irez.functionKey S.ordinal) (S.argumentKey i) :=
  ⟨"arg", by decide, toString i, rfl⟩

theorem blockKey_scoped (i : Nat) : ScopedTo (Irez.functionKey S.ordinal) (S.blockKey i) :=
  ⟨"block", by decide, toString i, rfl⟩

theorem instructionKey_scoped (i : Nat) :
    ScopedTo (Irez.functionKey S.ordinal) (S.instructionKey i) :=
  ⟨"inst", by decide, toString i, rfl⟩

theorem constantKey_scoped (i : Nat) : ScopedTo (Irez.functionKey S.ordinal) (S.constantKey i) :=
  ⟨"constant", by decide, toString i, rfl⟩

theorem blockKey_inj {i j : Nat} (h : S.blockKey i = S.blockKey j) : i = j :=
  decimal_inj ((String.append_right_inj _).mp h)

theorem instructionKey_inj {i j : Nat} (h : S.instructionKey i = S.instructionKey j) : i = j :=
  decimal_inj ((String.append_right_inj _).mp h)

/-! ## 2. Shapes of records -/

/-- The kinds of relations that are not control dependence. -/
def structuralKinds : List String :=
  ["llvm.contains", "llvm.operand", "llvm.references-global", "llvm.cfg-successor", "llvm.calls"]

/-- The shapes of the records before the control-dependence relations. -/
inductive Emitted : Record → Prop where
  | capabilities (entries : List CapabilityEntry) : Emitted (.capabilities entries)
  | module (m : ModuleRecord) : Emitted (.module m)
  | entity {e : EntityRecord} (h : e ∈ S.bodyEntities) : Emitted (.entity e)
  | operand (V : Value) (c : Nat) :
      Emitted (.entity (S.operandEntity V (S.freshKey V c).1 (S.freshKey V c).2))
  | relation {kind : String} (src dst : String) (ordinal : Option Int) (a : Attributes)
      (h : kind ∈ structuralKinds) : Emitted (.relation (relation kind src dst ordinal a))
  | source {I : Instruction} {i : Nat} (location : DebugLocation) (depth : Nat)
      (h : S.instructionEntity I i ∈ S.bodyEntities) :
      Emitted (sourceRecord (S.instructionKey i) location depth)

/-- The records of `E'` are those of `E` and then records of these shapes. -/
def Extends (E E' : Emitter) : Prop :=
  ∃ new, E'.records = E.records ++ new ∧ ∀ r ∈ new, S.Emitted r

variable {S} {E E' : Emitter}

theorem Extends.refl (E : Emitter) : S.Extends E E :=
  ⟨[], (List.append_nil _).symm, fun r hr => absurd hr List.not_mem_nil⟩

theorem Extends.emitAll (h : S.Extends E E') {rs : List Record} (hr : ∀ r ∈ rs, S.Emitted r) :
    S.Extends E (E'.emitAll rs) := by
  obtain ⟨new, he, hn⟩ := h
  refine ⟨new ++ rs, ?_, fun r h' => (List.mem_append.mp h').elim (hn r) (hr r)⟩
  rw [Emitter.emitAll_eq, ← List.append_assoc, ← he]

theorem Extends.emit (h : S.Extends E E') {r : Record} (hr : S.Emitted r) :
    S.Extends E (E'.emit r) := by
  have h1 : S.Extends E (E'.emitAll [r]) := h.emitAll fun r' h' => List.mem_singleton.mp h' ▸ hr
  exact h1

theorem Extends.ensureOperand (h : S.Extends E E') (V : Value) :
    S.Extends E (S.ensureOperand V E').2 := by
  unfold Selected.ensureOperand
  split
  · exact h
  · split
    · exact h
    · obtain ⟨new, he, hn⟩ := h.emit (.operand V E'.constantOrdinal)
      exact ⟨new, he, hn⟩

theorem Extends.emitOperand (h : S.Extends E E') (I : Instruction) (key : String)
    (Vo : Value × Nat) : S.Extends E (S.emitOperand I key E' Vo) := by
  obtain ⟨V, o⟩ := Vo
  have h2 := (h.ensureOperand V).emit (@Emitted.relation S "llvm.operand" key
    (S.ensureOperand V E').1 (some o) (S.incomingBlock I o) (by decide))
  show S.Extends E (if isGlobal V then _ else _)
  split
  · exact (h2.ensureOperand V).emit (.relation key _ none [] (by decide))
  · exact h2

theorem Extends.emitCall (h : S.Extends E E') (I : Instruction) (key : String) :
    S.Extends E (S.emitCall I key E') := by
  unfold Selected.emitCall
  split
  · rename_i i _
    exact (h.ensureOperand (.function i)).emit (.relation key _ none _ (by decide))
  · exact h

theorem successorRelations_emitted (B : Block) (terminator : Nat) :
    ∀ r ∈ S.successorRelations B terminator, S.Emitted r := by
  intro r hr
  obtain ⟨⟨successor, s⟩, _, rfl⟩ := List.mem_map.mp hr
  exact .relation _ _ _ _ (by decide)

theorem Extends.emitInstruction (h : S.Extends E E') (blockKey : String)
    {successors : List Record} (hs : ∀ r ∈ successors, S.Emitted r) {I : Instruction} {i : Nat}
    (hI : S.instructionEntity I i ∈ S.bodyEntities) :
    S.Extends E (S.emitInstruction blockKey successors E' (I, i)) := by
  have h1 := h.emit (@Emitted.relation S "llvm.contains" blockKey (S.instructionKey i) none []
    (by decide))
  have h2 := List.foldlRecOn (motive := S.Extends E) I.operands.zipIdx
    (S.emitOperand I (S.instructionKey i)) h1
    fun _ hE Vo _ => hE.emitOperand I (S.instructionKey i) Vo
  refine ((h2.emitAll hs).emitCall I _).emitAll fun r hr => ?_
  obtain ⟨⟨location, depth⟩, _, rfl⟩ := List.mem_map.mp hr
  exact .source location depth hI

theorem instructionEntity_mem {B : Block} {b first : Nat} (hB : (B, b, first) ∈ S.numbered)
    {I : Instruction} {i : Nat} (hI : (I, i) ∈ B.instructions.zipIdx first) :
    S.instructionEntity I i ∈ S.bodyEntities := by
  refine List.mem_append_right _ (List.mem_flatMap.mpr ⟨_, hB, ?_⟩)
  exact List.mem_cons_of_mem _ (List.mem_map.mpr ⟨(I, i), hI, rfl⟩)

theorem Extends.emitBlock (h : S.Extends E E') {B : Block} {b first : Nat}
    (hB : (B, b, first) ∈ S.numbered) : S.Extends E (S.emitBlock E' (B, b, first)) := by
  have hbody : ∀ Ii ∈ B.body.zipIdx first, S.instructionEntity Ii.1 Ii.2 ∈ S.bodyEntities := by
    intro Ii hIi
    refine instructionEntity_mem hB ?_
    rw [Block.instructions, List.zipIdx_append]
    exact List.mem_append_left _ hIi
  have hlast : S.instructionEntity B.terminator (first + B.body.length) ∈ S.bodyEntities := by
    refine instructionEntity_mem hB ?_
    rw [Block.instructions, List.zipIdx_append]
    exact List.mem_append_right _ (List.mem_singleton.mpr rfl)
  have h1 := h.emit (@Emitted.relation S "llvm.contains" S.functionKey (S.blockKey b) none []
    (by decide))
  have h2 := List.foldlRecOn (motive := S.Extends E) (B.body.zipIdx first)
    (S.emitInstruction (S.blockKey b) []) h1
    fun _ hE Ii hIi => hE.emitInstruction _ (fun r hr => absurd hr List.not_mem_nil) (hbody Ii hIi)
  exact h2.emitInstruction _ (successorRelations_emitted B _) hlast

/-- The emitter with the entities of the body. -/
def bodyEmitter (S : Selected) : Emitter :=
  (⟨moduleHeader S.module, [], 0⟩ : Emitter).emitAll (S.bodyEntities.map .entity)

/-- The emitter when the block loop is done. -/
def structureEmitter (S : Selected) : Emitter :=
  S.numbered.foldl S.emitBlock
    (S.bodyEmitter.emitAll
      (S.function.arguments.zipIdx.map fun (_, i) => contains S.functionKey (S.argumentKey i)))

theorem structureEmitter_extends (S : Selected) : S.Extends S.bodyEmitter S.structureEmitter := by
  have h1 : S.Extends S.bodyEmitter (S.bodyEmitter.emitAll
      (S.function.arguments.zipIdx.map fun (_, i) => contains S.functionKey (S.argumentKey i))) := by
    refine (Extends.refl _).emitAll fun r hr => ?_
    obtain ⟨⟨_, i⟩, _, rfl⟩ := List.mem_map.mp hr
    exact .relation _ _ _ _ (by decide)
  exact List.foldlRecOn S.numbered S.emitBlock h1 fun _ hE _ hB => hE.emitBlock hB

theorem bodyEmitter_records (S : Selected) :
    S.bodyEmitter.records = moduleHeader S.module ++ S.bodyEntities.map .entity := by
  rw [bodyEmitter, Emitter.emitAll_eq]

theorem structureEmitter_emitted (S : Selected) : ∀ r ∈ S.structureEmitter.records, S.Emitted r := by
  obtain ⟨new, he, hn⟩ := structureEmitter_extends S
  rw [he, bodyEmitter_records]
  intro r hr
  rcases List.mem_append.mp hr with hr | hr
  · rcases List.mem_append.mp hr with hr | hr
    · rcases List.mem_cons.mp hr with rfl | hr
      · exact .capabilities _
      · rw [List.mem_singleton.mp hr]
        exact .module _
    · obtain ⟨e, he, rfl⟩ := List.mem_map.mp hr
      exact .entity he
  · exact hn r hr

theorem mem_structureEmitter {S : Selected} {e : EntityRecord} (h : e ∈ S.bodyEntities) :
    .entity e ∈ S.structureEmitter.records := by
  obtain ⟨new, he, _⟩ := structureEmitter_extends S
  rw [he, bodyEmitter_records]
  exact List.mem_append_left _ (List.mem_append_right _ (List.mem_map_of_mem h))

theorem graph_records (S : Selected) (T : PostDominatorTree) :
    (S.graph T).records = S.structureEmitter.records ++ S.controlDependence T := by
  show (S.structureEmitter.emitAll (S.controlDependence T)).records = _
  rw [Emitter.emitAll_eq]

/-! ## 3. The keys of a stream -/

theorem Emitted.source_entity {S : Selected} {r : Record} {s : SourceRecord} (h : S.Emitted r)
    (hr : r = .source s) :
    ∃ e ∈ S.bodyEntities, e.localKey = s.entity ∧ e.kind = "instruction" := by
  cases h with
  | @source I i location depth hI =>
    cases hr
    exact ⟨_, hI, rfl, rfl⟩
  | capabilities _ => cases hr
  | module _ => cases hr
  | entity _ => cases hr
  | operand _ _ => cases hr
  | relation _ _ _ _ _ => cases hr

theorem bodyEntities_scoped (S : Selected) :
    ∀ e ∈ S.bodyEntities, e.Scoped (Irez.functionKey S.ordinal) := by
  intro e he
  rcases List.mem_append.mp he with he | he
  · rcases List.mem_cons.mp he with rfl | he
    · exact .function rfl rfl
    · obtain ⟨⟨A, i⟩, _, rfl⟩ := List.mem_map.mp he
      exact .of_kind (k := "argument") rfl (by decide) (by decide) (S.argumentKey_scoped i)
  · obtain ⟨⟨B, b, first⟩, _, he⟩ := List.mem_flatMap.mp he
    rcases List.mem_cons.mp he with rfl | he
    · exact .of_kind (k := "basic_block") rfl (by decide) (by decide) (S.blockKey_scoped b)
    · obtain ⟨⟨I, i⟩, _, rfl⟩ := List.mem_map.mp he
      exact .of_kind (k := "instruction") rfl (by decide) (by decide) (S.instructionKey_scoped i)

theorem operandEntity_scoped (S : Selected) (V : Value) (c : Nat) :
    (S.operandEntity V (S.freshKey V c).1 (S.freshKey V c).2).Scoped
      (Irez.functionKey S.ordinal) := by
  cases V with
  | global i => exact .global rfl ⟨i, rfl⟩
  | function i => exact .of_kind (k := "constant") rfl (by decide) (by decide) (S.constantKey_scoped c)
  | argument i => exact .of_kind (k := "constant") rfl (by decide) (by decide) (S.constantKey_scoped c)
  | block i => exact .of_kind (k := "constant") rfl (by decide) (by decide) (S.constantKey_scoped c)
  | instruction i => exact .of_kind (k := "constant") rfl (by decide) (by decide) (S.constantKey_scoped c)
  | other i => exact .of_kind (k := "constant") rfl (by decide) (by decide) (S.constantKey_scoped c)

theorem controlDependence_relation (S : Selected) (T : PostDominatorTree) :
    ∀ r ∈ S.controlDependence T, ∃ src dst o a,
      r = .relation (relation "llvm.control-dependence" src dst o a) := by
  intro r hr
  obtain ⟨⟨B, b, first⟩, _, hr⟩ := List.mem_flatMap.mp hr
  obtain ⟨⟨successor, s⟩, _, hr⟩ := List.mem_flatMap.mp hr
  simp only [controlEdge] at hr
  split at hr
  · exact absurd hr List.not_mem_nil
  · obtain ⟨y, _, hy⟩ := List.mem_filterMap.mp hr
    split at hy
    · cases hy
      exact ⟨_, _, _, _, rfl⟩
    · cases hy

/-- Every entity and every source record of the stream comes before the relations of
    control dependence. -/
theorem emitted_of_mem_graph {S : Selected} {T : PostDominatorTree} {r : Record}
    (hr : r ∈ (S.graph T).records) (hn : ∀ rel, r ≠ .relation rel) : S.Emitted r := by
  rw [graph_records] at hr
  rcases List.mem_append.mp hr with hr | hr
  · exact structureEmitter_emitted S r hr
  · obtain ⟨src, dst, o, a, rfl⟩ := controlDependence_relation S T r hr
    exact absurd rfl (hn _)

end Selected

section FunctionGraph

variable {pd : Function → PostDominatorTree} {M : Module} {key : String} {n : Nat} {F : Function}

theorem functionGraph_eq (h : selectFunction key 0 M.functions = some (n, F)) :
    functionGraph pd M key = (Selected.graph ⟨M, n, F⟩ (pd F)).records := by
  simp only [functionGraph, h]

/-- **The entities of the stream belong to the function selected.** -/
theorem functionGraph_scoped (h : selectFunction key 0 M.functions = some (n, F)) {e : EntityRecord}
    (he : .entity e ∈ functionGraph pd M key) : e.Scoped (functionKey n) := by
  rw [functionGraph_eq h] at he
  cases Selected.emitted_of_mem_graph he (fun _ => Record.noConfusion) with
  | entity hb => exact Selected.bodyEntities_scoped ⟨M, n, F⟩ e hb
  | operand V c => exact Selected.operandEntity_scoped ⟨M, n, F⟩ V c

/-- **The source records of the stream name its instructions.** -/
theorem functionGraph_source (h : selectFunction key 0 M.functions = some (n, F)) {s : SourceRecord}
    (hs : .source s ∈ functionGraph pd M key) :
    ∃ e, .entity e ∈ functionGraph pd M key ∧ e.localKey = s.entity ∧ e.kind = "instruction" := by
  rw [functionGraph_eq h] at hs ⊢
  have hem := Selected.emitted_of_mem_graph hs (fun _ => Record.noConfusion)
  obtain ⟨e, he, hl, hk⟩ := hem.source_entity rfl
  refine ⟨e, ?_, hl, hk⟩
  rw [Selected.graph_records]
  exact List.mem_append_left _ (Selected.mem_structureEmitter he)

end FunctionGraph

end Irez
