/-
  File:      Irez/Encoding.lean
  Subject:   The keys of a stream of `function_graph`: which value has which key, that
             the keys are distinct, and that every endpoint is declared.

  Keys are handed out while relations are emitted, so a key is known only from some
  point on. The pass is described without that history: `Emits` says which relations a
  part of the source adds, as a function of the keys that hold in the end.

  * `Emits`, `emitBlock_emits` -- one lemma for each part of the source;
  * `Ledger` -- the entities so far are those of the body and of the keys handed out;
  * `graph_relations`, `graph_entities` -- the relations of a stream in closed form, and
    its entities;
  * `graph_keys_nodup`, `Ledger.named_inj` -- no key is that of two entities or values;
  * `relation_declared` -- every relation joins declared keys.
-/
import Irez.Stream
import Irez.Materialize
import Irez.ControlDependence
import Mathlib.Data.List.Perm.Basic
import Mathlib.Data.List.Sort

open Irez.Basis

namespace Irez

namespace Selected

variable (S : Selected)

/-! ## 1. Keys so far -/

/-- The key a value has so far. -/
def named (E : Emitter) (V : Value) : Option String := (S.keys V).or (E.extraKeys.lookup V)

/-- `κ` gives every value the key it has so far. -/
def Reads (E : Emitter) (κ : Value → String) : Prop := ∀ V k, S.named E V = some k → κ V = k

/-- The kind of an entity for a value without a key. -/
def freshKind (V : Value) : String := (S.freshKey V 0).2

/-- The entities so far are those of the body and, in the order of their keys, those of
    the values that were given one. -/
structure Ledger (E : Emitter) : Prop where
  entities : entityRecords E.records = S.bodyEntities ++
    E.extraKeys.reverse.map fun p => S.operandEntity p.1 p.2 (S.freshKind p.1)
  unkeyed : ∀ p ∈ E.extraKeys, S.keys p.1 = none
  fresh : ∀ p ∈ E.extraKeys, ∃ c, (isGlobal p.1 = false → c < E.constantOrdinal) ∧
    p.2 = (S.freshKey p.1 c).1
  keys : (E.extraKeys.map (·.2)).Nodup

/-- A part of the source: it keeps the keys so far, gives the values `vs` one, and adds
    the relations `rels`. -/
structure Emits (E E' : Emitter) (vs : List Value)
    (rels : (Value → String) → List RelationRecord) : Prop where
  later : ∀ V k, S.named E V = some k → S.named E' V = some k
  values : ∀ V ∈ vs, (S.named E' V).isSome
  relations : ∀ κ, S.Reads E' κ →
    relationRecords E'.records = relationRecords E.records ++ rels κ
  ledger : S.Ledger E → S.Ledger E'

variable {S} {E E' E'' : Emitter} {vs ws : List Value}
  {rels rels' : (Value → String) → List RelationRecord}

theorem Emits.refl (E : Emitter) : S.Emits E E [] fun _ => [] where
  later _ _ h := h
  values _ h := absurd h List.not_mem_nil
  relations _ _ := (List.append_nil _).symm
  ledger h := h

/-- Parts of the source, one after the other. -/
theorem Emits.trans (h : S.Emits E E' vs rels) (h' : S.Emits E' E'' ws rels') :
    S.Emits E E'' (vs ++ ws) fun κ => rels κ ++ rels' κ where
  later V k hV := h'.later V k (h.later V k hV)
  values V hV := by
    rcases List.mem_append.mp hV with hV | hV
    · obtain ⟨k, hk⟩ := Option.isSome_iff_exists.mp (h.values V hV)
      rw [h'.later V k hk]
      rfl
    · exact h'.values V hV
  relations κ hκ := by
    have hκ' : S.Reads E' κ := fun V k hV => hκ V k (h'.later V k hV)
    rw [h'.relations κ hκ, h.relations κ hκ', List.append_assoc]
  ledger hL := h'.ledger (h.ledger hL)

theorem entityRecords_append (rs rs' : List Record) :
    entityRecords (rs ++ rs') = entityRecords rs ++ entityRecords rs' :=
  List.filterMap_append

theorem relationRecords_append (rs rs' : List Record) :
    relationRecords (rs ++ rs') = relationRecords rs ++ relationRecords rs' :=
  List.filterMap_append

/-- Records that declare no entity. -/
theorem Emits.emitAll (h : S.Emits E E' vs rels) {rs : List Record} (hr : entityRecords rs = []) :
    S.Emits E (E'.emitAll rs) vs fun κ => rels κ ++ relationRecords rs := by
  rw [Emitter.emitAll_eq]
  refine ⟨h.later, h.values, fun κ hκ => ?_, fun hL => ?_⟩
  · show relationRecords (E'.records ++ rs) = _
    rw [relationRecords_append, h.relations κ hκ, List.append_assoc]
  · have hL' := h.ledger hL
    refine ⟨?_, hL'.unkeyed, hL'.fresh, hL'.keys⟩
    show entityRecords (E'.records ++ rs) = _
    rw [entityRecords_append, hr, List.append_nil]
    exact hL'.entities

theorem Emits.emit (h : S.Emits E E' vs rels) (q : RelationRecord) :
    S.Emits E (E'.emit (.relation q)) vs fun κ => rels κ ++ [q] := by
  have hq : entityRecords [.relation q] = [] := rfl
  exact h.emitAll hq

/-- A loop of the source. -/
theorem Emits.foldl {α : Type} {f : Emitter → α → Emitter} {v : α → List Value}
    {r : α → (Value → String) → List RelationRecord} {l : List α}
    (hstep : ∀ E x, x ∈ l → S.Emits E (f E x) (v x) (r x)) (E : Emitter) :
    S.Emits E (l.foldl f E) (l.flatMap v) fun κ => l.flatMap fun x => r x κ := by
  induction l generalizing E with
  | nil => exact .refl E
  | cons x l ih =>
    have h := (hstep E x List.mem_cons_self).trans
      (ih (fun E y hy => hstep E y (List.mem_cons_of_mem _ hy)) (f E x))
    simpa only [List.foldl_cons, List.flatMap_cons] using h

/-! ## 2. New keys -/

theorem constantKey_inj {c d : Nat} (h : S.constantKey c = S.constantKey d) : c = d :=
  decimal_inj ((String.append_right_inj _).mp h)

theorem freshKey_constant {V : Value} (h : isGlobal V = false) (c : Nat) :
    (S.freshKey V c).1 = S.constantKey c := by
  cases V with
  | global i => cases h
  | _ => rfl

theorem freshKey_kind (V : Value) (c : Nat) : (S.freshKey V c).2 = S.freshKind V := by
  cases V <;> rfl

theorem constantKey_not_global (c : Nat) (i : Nat) :
    S.constantKey c ≠ "global:g" ++ toString i := by
  intro h
  exact (S.constantKey_scoped c).not_global ⟨i, h⟩

/-- Two new keys are one for one global, or for one number of a constant. -/
theorem freshKey_inj {V W : Value} {c d : Nat} (h : (S.freshKey V c).1 = (S.freshKey W d).1) :
    (isGlobal V = true ∧ V = W) ∨ (isGlobal V = false ∧ isGlobal W = false ∧ c = d) := by
  by_cases hV : isGlobal V = true
  · by_cases hW : isGlobal W = true
    · cases V with
      | global i =>
        cases W with
        | global j =>
          have hij := decimal_inj ((String.append_right_inj "global:g").mp h)
          exact Or.inl ⟨rfl, congrArg Value.global hij⟩
        | _ => cases hW
      | _ => cases hV
    · rw [Bool.not_eq_true] at hW
      cases V with
      | global i =>
        rw [freshKey_constant hW] at h
        exact absurd h.symm (constantKey_not_global d i)
      | _ => cases hV
  · rw [Bool.not_eq_true] at hV
    by_cases hW : isGlobal W = true
    · cases W with
      | global i =>
        rw [freshKey_constant hV] at h
        exact absurd h (constantKey_not_global c i)
      | _ => cases hW
    · rw [Bool.not_eq_true] at hW
      rw [freshKey_constant hV, freshKey_constant hW] at h
      exact Or.inr ⟨hV, hW, constantKey_inj h⟩

theorem lookup_none_not_mem {V : Value} {l : List (Value × String)} (h : l.lookup V = none) :
    ∀ p ∈ l, p.1 ≠ V := by
  intro p hp he
  rw [List.lookup_eq_none_iff] at h
  have := h p hp
  simp [he] at this

/-- **A value without a key is given one that no other value has.** -/
theorem Ledger.extend (h : S.Ledger E) {V : Value} (hk : S.keys V = none)
    (hl : E.extraKeys.lookup V = none) : S.Ledger (S.ensureOperand V E).2 := by
  have he : (S.ensureOperand V E).2 =
      { records := E.records ++ [.entity (S.operandEntity V (S.freshKey V E.constantOrdinal).1
          (S.freshKey V E.constantOrdinal).2)]
        extraKeys := (V, (S.freshKey V E.constantOrdinal).1) :: E.extraKeys
        constantOrdinal := nextConstant V E.constantOrdinal } := by
    simp only [ensureOperand, hk, hl]
  have hle : E.constantOrdinal ≤ nextConstant V E.constantOrdinal := by
    cases V <;> simp [nextConstant]
  rw [he]
  refine ⟨?_, ?_, ?_, ?_⟩
  · show entityRecords (E.records ++ [_]) = _
    rw [entityRecords_append, h.entities, List.reverse_cons, List.map_append, ← List.append_assoc,
      freshKey_kind]
    rfl
  · intro p hp
    rcases List.mem_cons.mp hp with rfl | hp
    · exact hk
    · exact h.unkeyed p hp
  · intro p hp
    rcases List.mem_cons.mp hp with rfl | hp
    · refine ⟨E.constantOrdinal, fun hg => ?_, rfl⟩
      show E.constantOrdinal < nextConstant V E.constantOrdinal
      cases V with
      | global i => cases hg
      | _ => exact Nat.lt_succ_self _
    · obtain ⟨c, hc, hp2⟩ := h.fresh p hp
      exact ⟨c, fun hg => Nat.lt_of_lt_of_le (hc hg) hle, hp2⟩
  · refine List.nodup_cons.mpr ⟨fun hm => ?_, h.keys⟩
    obtain ⟨p, hp, hpk⟩ := List.mem_map.mp hm
    obtain ⟨c, hc, hp2⟩ := h.fresh p hp
    rcases freshKey_inj (hp2.symm.trans hpk) with ⟨_, hV⟩ | ⟨hg, _, hcd⟩
    · exact lookup_none_not_mem hl p hp hV
    · have := hc hg
      omega

/-! ## 3. The parts of the source -/

theorem ensureOperand_named (V : Value) (E : Emitter) :
    S.named (S.ensureOperand V E).2 V = some (S.ensureOperand V E).1 := by
  unfold ensureOperand named
  split
  · rename_i key hk
    rw [hk]
    rfl
  · rename_i hk
    split
    · rename_i key hl
      rw [hk, hl]
      rfl
    · rw [hk]
      simp [List.lookup_cons]

theorem ensureOperand_emits (V : Value) (E : Emitter) :
    S.Emits E (S.ensureOperand V E).2 [V] fun _ => [] := by
  have hnamed := @ensureOperand_named S V E
  have hval : ∀ W ∈ [V], (S.named (S.ensureOperand V E).2 W).isSome := by
    intro W hW
    rw [List.mem_singleton.mp hW, hnamed]
    rfl
  by_cases hk : (S.keys V).isSome
  · obtain ⟨key, hk⟩ := Option.isSome_iff_exists.mp hk
    have he : (S.ensureOperand V E).2 = E := by simp only [ensureOperand, hk]
    rw [he] at hval ⊢
    exact ⟨fun _ _ h => h, hval, fun _ _ => (List.append_nil _).symm, fun h => h⟩
  · rw [Option.not_isSome_iff_eq_none] at hk
    by_cases hl : (E.extraKeys.lookup V).isSome
    · obtain ⟨key, hl⟩ := Option.isSome_iff_exists.mp hl
      have he : (S.ensureOperand V E).2 = E := by simp only [ensureOperand, hk, hl]
      rw [he] at hval ⊢
      exact ⟨fun _ _ h => h, hval, fun _ _ => (List.append_nil _).symm, fun h => h⟩
    · rw [Option.not_isSome_iff_eq_none] at hl
      refine ⟨fun W k hW => ?_, hval, fun κ _ => ?_, fun hL => hL.extend hk hl⟩
      · by_cases hWV : W = V
        · subst hWV
          simp only [named, hk, hl] at hW
          cases hW
        · have hx : (S.ensureOperand V E).2.extraKeys =
              (V, (S.freshKey V E.constantOrdinal).1) :: E.extraKeys := by
            simp only [ensureOperand, hk, hl]
          unfold named at hW ⊢
          simp only [hx, List.lookup_cons, beq_false_of_ne hWV]
          exact hW
      · have hx : (S.ensureOperand V E).2.records = E.records ++ [.entity (S.operandEntity V
            (S.freshKey V E.constantOrdinal).1 (S.freshKey V E.constantOrdinal).2)] := by
          simp only [ensureOperand, hk, hl]
        rw [hx, relationRecords_append]
        rfl

/-- The relations are read off the keys that hold in the end. -/
theorem Emits.congr (h : S.Emits E E' vs rels) (hr : ∀ κ, S.Reads E' κ → rels κ = rels' κ) :
    S.Emits E E' vs rels' where
  later := h.later
  values := h.values
  relations κ hκ := by
    rw [← hr κ hκ]
    exact h.relations κ hκ
  ledger := h.ledger

/-- A relation to a value: its key is looked up, or handed out, first. -/
theorem ensureOperand_emit (V : Value) (E : Emitter) (q : String → RelationRecord) :
    S.Emits E ((S.ensureOperand V E).2.emit (.relation (q (S.ensureOperand V E).1))) [V]
      fun κ => [q (κ V)] := by
  refine ((ensureOperand_emits V E).emit _).congr fun κ hκ => ?_
  rw [hκ V _ (ensureOperand_named V E), List.nil_append]

variable (S)

/-- The relations of one operand. -/
def operandRelations (κ : Value → String) (I : Instruction) (key : String) :
    Value × Nat → List RelationRecord
  | (V, o) =>
    [relation "llvm.operand" key (κ V) (some o) (S.incomingBlock I o)] ++
      if isGlobal V then [relation "llvm.references-global" key (κ V) none []] else []

/-- The function a call reaches. -/
def calledValues (I : Instruction) : List Value :=
  match I.call.bind callee with
  | some i => [.function i]
  | none => []

/-- The relation of a call. -/
def callRelations (κ : Value → String) (I : Instruction) (key : String) : List RelationRecord :=
  match I.call.bind callee with
  | some i =>
    [relation "llvm.calls" key (κ (.function i)) none [("external", .bool (S.isDeclaration i))]]
  | none => []

def containsRelation (src dst : String) : RelationRecord :=
  relation "llvm.contains" src dst none []

/-- The relations of one instruction. -/
def instructionRelations (κ : Value → String) (blockKey : String) (successors : List RelationRecord) :
    Instruction × Nat → List RelationRecord
  | (I, i) =>
    [containsRelation blockKey (S.instructionKey i)] ++
      I.operands.zipIdx.flatMap (S.operandRelations κ I (S.instructionKey i)) ++ successors ++
      S.callRelations κ I (S.instructionKey i)

/-- The CFG edges of a block as relations. -/
def successorRows (B : Block) (terminator : Nat) : List RelationRecord :=
  B.successors.zipIdx.map fun (successor, s) =>
    relation "llvm.cfg-successor" (S.instructionKey terminator)
      ((S.keys (.block successor)).getD "") (some s) (successorAttributes B.terminatorKind s)

/-- The instructions of a block with their numbers and CFG edges. -/
def blockInstructions : Block × Nat × Nat → List ((Instruction × Nat) × List RelationRecord)
  | (B, _, first) =>
    (B.body.zipIdx first).map (fun Ii => (Ii, [])) ++
      [((B.terminator, first + B.body.length), S.successorRows B (first + B.body.length))]

/-- The relations of one block. -/
def blockRelations (κ : Value → String) (u : Block × Nat × Nat) : List RelationRecord :=
  [containsRelation S.functionKey (S.blockKey u.2.1)] ++
    (S.blockInstructions u).flatMap fun Iis =>
      S.instructionRelations κ (S.blockKey u.2.1) Iis.2 Iis.1

variable {S}

theorem emitOperand_emits (I : Instruction) (key : String) (E : Emitter) (Vo : Value × Nat) :
    S.Emits E (S.emitOperand I key E Vo) [Vo.1] fun κ => S.operandRelations κ I key Vo := by
  obtain ⟨V, o⟩ := Vo
  have h1 := ensureOperand_emit (S := S) V E
    fun dst => relation "llvm.operand" key dst (some o) (S.incomingBlock I o)
  by_cases hg : isGlobal V = true
  · have h2 := h1.trans (ensureOperand_emit V _
      fun dst => relation "llvm.references-global" key dst none [])
    have he : S.emitOperand I key E (V, o) =
        (S.ensureOperand V ((S.ensureOperand V E).2.emit (.relation (relation "llvm.operand" key
          (S.ensureOperand V E).1 (some o) (S.incomingBlock I o))))).2.emit (.relation
          (relation "llvm.references-global" key (S.ensureOperand V ((S.ensureOperand V E).2.emit
            (.relation (relation "llvm.operand" key (S.ensureOperand V E).1 (some o)
              (S.incomingBlock I o))))).1 none [])) := if_pos hg
    rw [he]
    refine ⟨h2.later, fun W hW => h2.values W ?_, fun κ hκ => ?_, h2.ledger⟩
    · exact List.mem_append_left _ hW
    · rw [h2.relations κ hκ]
      simp only [operandRelations, if_pos hg]
  · have he : S.emitOperand I key E (V, o) =
        (S.ensureOperand V E).2.emit (.relation (relation "llvm.operand" key
          (S.ensureOperand V E).1 (some o) (S.incomingBlock I o))) := if_neg hg
    rw [he]
    refine h1.congr fun κ _ => ?_
    simp only [operandRelations, if_neg hg, List.append_nil]

theorem emitCall_emits (I : Instruction) (key : String) (E : Emitter) :
    S.Emits E (S.emitCall I key E) (calledValues I) fun κ => S.callRelations κ I key := by
  cases hc : I.call.bind callee with
  | none =>
    have he : S.emitCall I key E = E := by simp only [emitCall, hc]
    rw [he]
    refine ⟨fun _ _ h => h, fun V hV => ?_, fun κ _ => ?_, fun h => h⟩
    · simp only [calledValues, hc] at hV
      exact absurd hV List.not_mem_nil
    · simp only [callRelations, hc, List.append_nil]
  | some i =>
    have h := ensureOperand_emit (S := S) (.function i) E
      fun dst => relation "llvm.calls" key dst none [("external", .bool (S.isDeclaration i))]
    have he : S.emitCall I key E = (S.ensureOperand (.function i) E).2.emit (.relation
        (relation "llvm.calls" key (S.ensureOperand (.function i) E).1 none
          [("external", .bool (S.isDeclaration i))])) := by
      simp only [emitCall, hc]
    rw [he]
    refine ⟨h.later, fun V hV => h.values V ?_, fun κ hκ => ?_, h.ledger⟩
    · simpa only [calledValues, hc] using hV
    · rw [h.relations κ hκ]
      simp only [callRelations, hc]

theorem sourceRecords_no_entity (I : Instruction) (key : String) :
    entityRecords (I.locations.zipIdx.map fun (location, depth) =>
      sourceRecord key location depth) = [] ∧
    relationRecords (I.locations.zipIdx.map fun (location, depth) =>
      sourceRecord key location depth) = [] := by
  constructor
  · refine List.filterMap_eq_nil_iff.mpr fun r hr => ?_
    obtain ⟨_, _, rfl⟩ := List.mem_map.mp hr
    rfl
  · refine List.filterMap_eq_nil_iff.mpr fun r hr => ?_
    obtain ⟨_, _, rfl⟩ := List.mem_map.mp hr
    rfl

/-- The records of relations only. -/
theorem records_of_relations (qs : List RelationRecord) :
    entityRecords (qs.map .relation) = [] ∧ relationRecords (qs.map .relation) = qs := by
  constructor
  · refine List.filterMap_eq_nil_iff.mpr fun r hr => ?_
    obtain ⟨_, _, rfl⟩ := List.mem_map.mp hr
    rfl
  · unfold relationRecords
    rw [List.filterMap_map]
    exact List.filterMap_some

theorem emitInstruction_emits (blockKey : String) (successors : List RelationRecord) (E : Emitter)
    (Ii : Instruction × Nat) :
    S.Emits E (S.emitInstruction blockKey (successors.map .relation) E Ii)
      (Ii.1.operands ++ calledValues Ii.1)
      fun κ => S.instructionRelations κ blockKey successors Ii := by
  obtain ⟨I, i⟩ := Ii
  have h1 := (Emits.refl (S := S) E).emit (containsRelation blockKey (S.instructionKey i))
  have h2 := h1.trans (Emits.foldl (f := S.emitOperand I (S.instructionKey i))
    (l := I.operands.zipIdx) (fun E Vo _ => emitOperand_emits I (S.instructionKey i) E Vo) _)
  have h3 := h2.emitAll (records_of_relations successors).1
  have hcall := emitCall_emits (S := S) I (S.instructionKey i) ((I.operands.zipIdx.foldl
    (S.emitOperand I (S.instructionKey i))
    (E.emit (.relation (containsRelation blockKey (S.instructionKey i))))).emitAll
    (successors.map .relation))
  have h4 := (h3.trans hcall).emitAll (sourceRecords_no_entity I (S.instructionKey i)).1
  refine ⟨h4.later, fun V hV => h4.values V ?_, fun κ hκ => ?_, h4.ledger⟩
  · rcases List.mem_append.mp hV with hV | hV
    · obtain ⟨o, ho⟩ := List.mem_iff_getElem?.mp hV
      refine List.mem_append_left _ (List.mem_append_right _
        (List.mem_flatMap.mpr ⟨(V, o), ?_, ?_⟩))
      · exact List.mem_zipIdx_iff_getElem?.mpr ho
      · exact List.mem_singleton.mpr rfl
    · exact List.mem_append_right _ hV
  · have h5 := h4.relations κ hκ
    rw [(sourceRecords_no_entity I (S.instructionKey i)).2,
      (records_of_relations successors).2, List.append_nil] at h5
    refine h5.trans ?_
    simp only [instructionRelations, List.append_assoc, List.nil_append]

/-- **One block**: the keys, relations and entities that a turn of the block loop adds. -/
theorem emitBlock_emits (E : Emitter) (u : Block × Nat × Nat) :
    S.Emits E (S.emitBlock E u) (u.1.instructions.flatMap fun I => I.operands ++ calledValues I)
      fun κ => S.blockRelations κ u := by
  obtain ⟨B, b, first⟩ := u
  have h1 := (Emits.refl (S := S) E).emit (containsRelation S.functionKey (S.blockKey b))
  have h2 := h1.trans (Emits.foldl (f := S.emitInstruction (S.blockKey b) [])
    (l := B.body.zipIdx first)
    (fun E Ii _ => emitInstruction_emits (S.blockKey b) [] E Ii) _)
  have h3 := h2.trans (emitInstruction_emits (S.blockKey b)
    (S.successorRows B (first + B.body.length)) _ (B.terminator, first + B.body.length))
  have hsucc : (S.successorRows B (first + B.body.length)).map Record.relation =
      S.successorRelations B (first + B.body.length) := by
    unfold successorRows successorRelations
    rw [List.map_map]
    rfl
  rw [hsucc] at h3
  refine ⟨h3.later, fun V hV => h3.values V ?_, fun κ hκ => ?_, h3.ledger⟩
  · obtain ⟨I, hI, hV⟩ := List.mem_flatMap.mp hV
    rcases List.mem_append.mp hI with hI | hI
    · obtain ⟨i, hi⟩ := List.mem_iff_getElem?.mp hI
      refine List.mem_append_left _ (List.mem_append_right _
        (List.mem_flatMap.mpr ⟨(I, first + i), ?_, hV⟩))
      exact List.mk_add_mem_zipIdx_iff_getElem?.mpr hi
    · rw [List.mem_singleton.mp hI] at hV
      exact List.mem_append_right _ hV
  · refine (h3.relations κ hκ).trans ?_
    simp only [blockRelations, blockInstructions, List.flatMap_append, List.flatMap_map,
      List.flatMap_cons, List.flatMap_nil, List.append_nil, List.nil_append, List.append_assoc]

/-! ## 4. The whole stream -/

theorem numberBlocks_map (b i : Nat) (Bs : List Block) :
    (numberBlocks b i Bs).map (·.1) = Bs := by
  induction Bs generalizing b i with
  | nil => rfl
  | cons B Bs ih => rw [numberBlocks, List.map_cons, ih]

/-- The values of a function that a relation leads to. -/
def values (S : Selected) : List Value :=
  S.function.instructions.flatMap fun I => I.operands ++ calledValues I

/-- The relations before those of control dependence. -/
def structureRelations (S : Selected) (κ : Value → String) : List RelationRecord :=
  (S.function.arguments.zipIdx.map fun Ai => containsRelation S.functionKey (S.argumentKey Ai.2)) ++
    S.numbered.flatMap (S.blockRelations κ)

theorem structureEmitter_emits (S : Selected) :
    S.Emits S.bodyEmitter S.structureEmitter S.values S.structureRelations := by
  have h1 := (Emits.refl (S := S) S.bodyEmitter).emitAll
    (records_of_relations (S.function.arguments.zipIdx.map fun Ai =>
      containsRelation S.functionKey (S.argumentKey Ai.2))).1
  have h2 := h1.trans (Emits.foldl (f := S.emitBlock) (l := S.numbered)
    (fun E u _ => emitBlock_emits E u) _)
  have hargs : (S.function.arguments.zipIdx.map fun Ai =>
      containsRelation S.functionKey (S.argumentKey Ai.2)).map Record.relation =
      S.function.arguments.zipIdx.map fun Ai => contains S.functionKey (S.argumentKey Ai.2) := by
    rw [List.map_map]
    rfl
  have hvs : S.values = S.numbered.flatMap fun u =>
      u.1.instructions.flatMap fun I => I.operands ++ calledValues I := by
    unfold values Function.instructions
    rw [← numberBlocks_map 0 0 S.function.blocks, List.flatMap_map, List.flatMap_assoc]
    rfl
  rw [hargs] at h2
  refine ⟨h2.later, fun V hV => h2.values V ?_, fun κ hκ => ?_, h2.ledger⟩
  · rw [List.nil_append, ← hvs]
    exact hV
  · refine (h2.relations κ hκ).trans ?_
    rw [← hargs, (records_of_relations _).2]
    rfl

theorem bodyEmitter_ledger (S : Selected) : S.Ledger S.bodyEmitter := by
  have he : S.bodyEmitter = { records := moduleHeader S.module ++ S.bodyEntities.map .entity
                              extraKeys := [], constantOrdinal := 0 } := by
    rw [bodyEmitter, Emitter.emitAll_eq]
  rw [he]
  refine ⟨?_, fun p hp => absurd hp List.not_mem_nil, fun p hp => absurd hp List.not_mem_nil,
    List.nodup_nil⟩
  show entityRecords (moduleHeader S.module ++ S.bodyEntities.map .entity) = S.bodyEntities ++ []
  rw [entityRecords_append, List.append_nil]
  unfold entityRecords
  rw [List.filterMap_map]
  exact List.filterMap_some

theorem structureEmitter_ledger (S : Selected) : S.Ledger S.structureEmitter :=
  (structureEmitter_emits S).ledger (bodyEmitter_ledger S)

/-- The key a value has in the stream. -/
def name (S : Selected) (V : Value) : String := (S.named S.structureEmitter V).getD ""

theorem reads_name (S : Selected) : S.Reads S.structureEmitter S.name := by
  intro V k h
  unfold name
  rw [h]
  rfl

theorem named_name {V : Value} (h : V ∈ S.values) :
    S.named S.structureEmitter V = some (S.name V) := by
  obtain ⟨k, hk⟩ := Option.isSome_iff_exists.mp ((structureEmitter_emits S).values V h)
  rw [hk, S.reads_name V k hk]

/-- The entities of the values that were given a key. -/
def operandEntities (S : Selected) : List EntityRecord :=
  S.structureEmitter.extraKeys.reverse.map fun p => S.operandEntity p.1 p.2 (S.freshKind p.1)

/-- The control-dependence relations as relations. -/
def controlRelations (S : Selected) (T : PostDominatorTree) : List RelationRecord :=
  relationRecords (S.controlDependence T)

theorem graph_entities (S : Selected) (T : PostDominatorTree) :
    entityRecords (S.graph T).records = S.bodyEntities ++ S.operandEntities := by
  have hnone : entityRecords (S.controlDependence T) = [] := by
    refine List.filterMap_eq_nil_iff.mpr fun r hr => ?_
    obtain ⟨_, _, _, _, rfl⟩ := controlDependence_relation S T r hr
    rfl
  rw [graph_records, entityRecords_append, hnone, List.append_nil]
  exact (structureEmitter_ledger S).entities

/-- **The relations of a stream in closed form.** -/
theorem graph_relations (S : Selected) (T : PostDominatorTree) :
    relationRecords (S.graph T).records =
      S.structureRelations S.name ++ S.controlRelations T := by
  have hbody : relationRecords S.bodyEmitter.records = [] := by
    rw [bodyEmitter_records, relationRecords_append]
    refine List.append_eq_nil_iff.mpr ⟨rfl, List.filterMap_eq_nil_iff.mpr fun r hr => ?_⟩
    obtain ⟨_, _, rfl⟩ := List.mem_map.mp hr
    rfl
  rw [graph_records, relationRecords_append,
    (structureEmitter_emits S).relations S.name S.reads_name, hbody, List.nil_append]
  rfl

/-! ## 5. The keys of the stream -/

/-- The head of a value's key. -/
def head : Value → String
  | .function _ => "function"
  | .argument _ => "arg"
  | .block _ => "block"
  | .instruction _ => "inst"
  | .global _ => "global"
  | .other _ => "constant"

theorem headField_eq {h : String} (hh : ':' ∉ h.toList) (rest : String) :
    headField ':' (h ++ ":" ++ rest) = h :=
  headField_append rfl hh rest

theorem headField_argumentKey (i : Nat) : headField ':' (S.argumentKey i) = "arg" := by
  have e : S.argumentKey i =
      "arg" ++ ":" ++ (Irez.functionKey S.ordinal ++ ":" ++ toString i) := by
    simp only [argumentKey, ← String.append_assoc]
    rfl
  rw [e]
  exact headField_eq (by decide) _

theorem headField_blockKey (i : Nat) : headField ':' (S.blockKey i) = "block" := by
  have e : S.blockKey i =
      "block" ++ ":" ++ (Irez.functionKey S.ordinal ++ ":" ++ toString i) := by
    simp only [blockKey, ← String.append_assoc]
    rfl
  rw [e]
  exact headField_eq (by decide) _

theorem headField_instructionKey (i : Nat) : headField ':' (S.instructionKey i) = "inst" := by
  have e : S.instructionKey i =
      "inst" ++ ":" ++ (Irez.functionKey S.ordinal ++ ":" ++ toString i) := by
    simp only [instructionKey, ← String.append_assoc]
    rfl
  rw [e]
  exact headField_eq (by decide) _

theorem headField_constantKey (i : Nat) : headField ':' (S.constantKey i) = "constant" := by
  have e : S.constantKey i =
      "constant" ++ ":" ++ (Irez.functionKey S.ordinal ++ ":" ++ toString i) := by
    simp only [constantKey, ← String.append_assoc]
    rfl
  rw [e]
  exact headField_eq (by decide) _

theorem headField_freshKey (V : Value) (c : Nat) :
    headField ':' (S.freshKey V c).1 = S.freshKind V := by
  cases V with
  | global i => exact GlobalKey.head_eq ⟨i, rfl⟩
  | _ => exact headField_constantKey c

theorem argumentKey_inj {i j : Nat} (h : S.argumentKey i = S.argumentKey j) : i = j :=
  decimal_inj ((String.append_right_inj _).mp h)

theorem functionKeys_inj {i j : Nat}
    (h : "function:" ++ Irez.functionKey i = "function:" ++ Irez.functionKey j) : i = j := by
  have h1 := (String.append_right_inj "function:").mp h
  exact decimal_inj ((String.append_right_inj "f").mp h1)

/-- What a key of a value from the start is. -/
theorem keys_eq_some {V : Value} {k : String} (h : S.keys V = some k) :
    (∃ i < S.module.functions.length, V = .function i ∧ k = functionLocal (Irez.functionKey i)) ∨
    (∃ i < S.function.arguments.length, V = .argument i ∧ k = S.argumentKey i) ∨
    (∃ i < S.function.blocks.length, V = .block i ∧ k = S.blockKey i) ∨
    (∃ i < S.function.instructions.length, V = .instruction i ∧ k = S.instructionKey i) := by
  cases V with
  | function i =>
    simp only [keys, Option.ite_none_right_eq_some, Option.some.injEq] at h
    exact Or.inl ⟨i, h.1, rfl, h.2.symm⟩
  | argument i =>
    simp only [keys, Option.ite_none_right_eq_some, Option.some.injEq] at h
    exact Or.inr (Or.inl ⟨i, h.1, rfl, h.2.symm⟩)
  | block i =>
    simp only [keys, Option.ite_none_right_eq_some, Option.some.injEq] at h
    exact Or.inr (Or.inr (Or.inl ⟨i, h.1, rfl, h.2.symm⟩))
  | instruction i =>
    simp only [keys, Option.ite_none_right_eq_some, Option.some.injEq] at h
    exact Or.inr (Or.inr (Or.inr ⟨i, h.1, rfl, h.2.symm⟩))
  | global i => cases h
  | other i => cases h

theorem headField_keys {V : Value} {k : String} (h : S.keys V = some k) :
    headField ':' k = head V ∧ head V ∈ ["function", "arg", "block", "inst"] := by
  rcases keys_eq_some h with ⟨i, _, rfl, rfl⟩ | ⟨i, _, rfl, rfl⟩ | ⟨i, _, rfl, rfl⟩ | ⟨i, _, rfl, rfl⟩
  · exact ⟨headField_functionLocal _, by simp [head]⟩
  · exact ⟨headField_argumentKey i, by simp [head]⟩
  · exact ⟨headField_blockKey i, by simp [head]⟩
  · exact ⟨headField_instructionKey i, by simp [head]⟩

/-- No two values have one key from the start. -/
theorem keys_inj {V W : Value} {k : String} (h : S.keys V = some k) (h' : S.keys W = some k) :
    V = W := by
  have hhead : head V = head W := (headField_keys h).1.symm.trans (headField_keys h').1
  rcases keys_eq_some h with ⟨i, _, rfl, hk⟩ | ⟨i, _, rfl, hk⟩ | ⟨i, _, rfl, hk⟩ | ⟨i, _, rfl, hk⟩
  · cases W with
    | function j =>
      obtain ⟨_, _, hj, hk'⟩ | ⟨_, _, hj, _⟩ | ⟨_, _, hj, _⟩ | ⟨_, _, hj, _⟩ := keys_eq_some h'
      all_goals cases hj
      rw [functionKeys_inj (hk.symm.trans hk')]
    | _ => simp [head] at hhead
  · cases W with
    | argument j =>
      obtain ⟨_, _, hj, _⟩ | ⟨_, _, hj, hk'⟩ | ⟨_, _, hj, _⟩ | ⟨_, _, hj, _⟩ := keys_eq_some h'
      all_goals cases hj
      rw [argumentKey_inj (hk.symm.trans hk')]
    | _ => simp [head] at hhead
  · cases W with
    | block j =>
      obtain ⟨_, _, hj, _⟩ | ⟨_, _, hj, _⟩ | ⟨_, _, hj, hk'⟩ | ⟨_, _, hj, _⟩ := keys_eq_some h'
      all_goals cases hj
      rw [S.blockKey_inj (hk.symm.trans hk')]
    | _ => simp [head] at hhead
  · cases W with
    | instruction j =>
      obtain ⟨_, _, hj, _⟩ | ⟨_, _, hj, _⟩ | ⟨_, _, hj, _⟩ | ⟨_, _, hj, hk'⟩ := keys_eq_some h'
      all_goals cases hj
      rw [S.instructionKey_inj (hk.symm.trans hk')]
    | _ => simp [head] at hhead

theorem freshKind_mem (V : Value) : S.freshKind V ∈ ["global", "constant"] := by
  cases V <;> simp [freshKind, freshKey]

theorem mem_of_lookup_eq {V : Value} {k : String} {l : List (Value × String)}
    (h : l.lookup V = some k) : (V, k) ∈ l := by
  induction l with
  | nil => cases h
  | cons p l ih =>
    obtain ⟨W, k'⟩ := p
    by_cases hVW : V = W
    · subst hVW
      simp only [List.lookup_cons, beq_self_eq_true, Option.some.injEq] at h
      rw [h]
      exact List.mem_cons_self
    · simp only [List.lookup_cons, beq_false_of_ne hVW] at h
      exact List.mem_cons_of_mem _ (ih h)

/-- A key so far is one from the start, or was handed out. -/
theorem named_cases {V : Value} {k : String} (h : S.named E V = some k) :
    S.keys V = some k ∨ (V, k) ∈ E.extraKeys := by
  unfold named at h
  rcases Option.or_eq_some_iff.mp h with h | ⟨_, h⟩
  · exact Or.inl h
  · exact Or.inr (mem_of_lookup_eq h)

/-- **Equal keys are keys of one value.** -/
theorem Ledger.named_inj (hL : S.Ledger E) {V W : Value} {k : String} (h : S.named E V = some k)
    (h' : S.named E W = some k) : V = W := by
  have hmixed : ∀ {V W : Value}, S.keys V = some k → (W, k) ∈ E.extraKeys → False := by
    intro V W hV hW
    obtain ⟨c, _, hc⟩ := hL.fresh _ hW
    obtain ⟨hhead, hmem⟩ := headField_keys hV
    have hkind : head V = S.freshKind W := by
      rw [← hhead]
      exact (congrArg (headField ':') hc).trans (headField_freshKey W c)
    have hmem' := S.freshKind_mem W
    rw [← hkind] at hmem'
    cases V <;> simp [head] at hmem hmem'
  rcases named_cases h with hV | hV
  · rcases named_cases h' with hW | hW
    · exact keys_inj hV hW
    · exact (hmixed hV hW).elim
  · rcases named_cases h' with hW | hW
    · exact (hmixed hW hV).elim
    · have := List.inj_on_of_nodup_map hL.keys hV hW rfl
      exact (Prod.mk.inj this).1

/-- The instructions with their numbers, block by block. -/
theorem numberBlocks_instructions (b i : Nat) (Bs : List Block) :
    (numberBlocks b i Bs).flatMap (fun u => u.1.instructions.zipIdx u.2.2) =
      (Bs.flatMap Block.instructions).zipIdx i := by
  induction Bs generalizing b i with
  | nil => rfl
  | cons B Bs ih => rw [numberBlocks, List.flatMap_cons, ih, List.flatMap_cons, List.zipIdx_append]

theorem numbered_instructions (S : Selected) :
    S.numbered.flatMap (fun u => u.1.instructions.zipIdx u.2.2) =
      S.function.instructions.zipIdx :=
  numberBlocks_instructions 0 0 S.function.blocks

theorem nodup_zipIdx_keys {α : Type} {f : Nat → String} (hf : ∀ {i j}, f i = f j → i = j)
    (l : List α) (n : Nat) : ((l.zipIdx n).map fun p => f p.2).Nodup := by
  have he : ((l.zipIdx n).map fun p => f p.2) = (List.range' n l.length).map f := by
    rw [← List.zipIdx_map_snd n l, List.map_map]
    rfl
  rw [he]
  exact List.Nodup.map (fun _ _ h => hf h) List.nodup_range'

/-- The keys of the body: the function, its arguments, its blocks, its instructions. -/
theorem bodyKeys_perm (S : Selected) :
    (S.bodyEntities.map (·.localKey)).Perm
      ([S.functionKey] ++ S.function.arguments.zipIdx.map (fun p => S.argumentKey p.2) ++
        (S.numbered.map (fun u => S.blockKey u.2.1) ++
          S.function.instructions.zipIdx.map (fun p => S.instructionKey p.2))) := by
  have hblocks : (S.numbered.flatMap S.blockEntities).map (·.localKey) =
      S.numbered.flatMap (fun u => S.blockKey u.2.1 ::
        (u.1.instructions.zipIdx u.2.2).map (fun p => S.instructionKey p.2)) := by
    rw [List.map_flatMap]
    refine List.flatMap_congr fun u _ => ?_
    simp only [blockEntities, List.map_cons, List.map_map]
    rfl
  have hinst : S.numbered.flatMap (fun u =>
      (u.1.instructions.zipIdx u.2.2).map (fun p => S.instructionKey p.2)) =
      S.function.instructions.zipIdx.map (fun p => S.instructionKey p.2) := by
    rw [← numbered_instructions, List.map_flatMap]
  have hbody : S.bodyEntities.map (·.localKey) = [S.functionKey] ++
      S.function.arguments.zipIdx.map (fun p => S.argumentKey p.2) ++
        (S.numbered.flatMap S.blockEntities).map (·.localKey) := by
    simp only [bodyEntities, List.map_append, List.map_cons, List.map_map]
    rfl
  rw [hbody, hblocks, ← hinst]
  exact (List.map_append_flatMap_perm S.numbered _ _).symm.append_left _

theorem numbered_keys_nodup (S : Selected) :
    (S.numbered.map (fun u => S.blockKey u.2.1)).Nodup := by
  refine List.pairwise_map.mpr ((numberBlocks_pairwise 0 0 S.function.blocks).imp ?_)
  intro u v huv he
  exact huv (S.blockKey_inj he)

theorem ne_of_head {k k' h h' : String} (hk : headField ':' k = h) (hk' : headField ':' k' = h')
    (hne : h ≠ h') : k ≠ k' := by
  rintro rfl
  exact hne (hk.symm.trans hk')

theorem headField_functionKey : headField ':' S.functionKey = "function" := headField_functionLocal _

theorem bodyKeys_nodup (S : Selected) : (S.bodyEntities.map (·.localKey)).Nodup := by
  rw [(bodyKeys_perm S).nodup_iff, List.nodup_append, List.nodup_append, List.nodup_append]
  refine ⟨⟨List.nodup_singleton _, nodup_zipIdx_keys argumentKey_inj _ 0, ?_⟩,
    ⟨numbered_keys_nodup S, nodup_zipIdx_keys (S.instructionKey_inj) _ 0, ?_⟩, ?_⟩
  · intro k hk k' hk'
    obtain ⟨_, _, rfl⟩ := List.mem_map.mp hk'
    rw [List.mem_singleton.mp hk]
    exact ne_of_head headField_functionKey (headField_argumentKey _) (by decide)
  · intro k hk k' hk'
    obtain ⟨_, _, rfl⟩ := List.mem_map.mp hk
    obtain ⟨_, _, rfl⟩ := List.mem_map.mp hk'
    exact ne_of_head (headField_blockKey _) (headField_instructionKey _) (by decide)
  · intro k hk k' hk'
    have hk : headField ':' k = "function" ∨ headField ':' k = "arg" := by
      rcases List.mem_append.mp hk with hk | hk
      · rw [List.mem_singleton.mp hk]
        exact Or.inl headField_functionKey
      · obtain ⟨_, _, rfl⟩ := List.mem_map.mp hk
        exact Or.inr (headField_argumentKey _)
    have hk' : headField ':' k' = "block" ∨ headField ':' k' = "inst" := by
      rcases List.mem_append.mp hk' with hk' | hk'
      · obtain ⟨_, _, rfl⟩ := List.mem_map.mp hk'
        exact Or.inl (headField_blockKey _)
      · obtain ⟨_, _, rfl⟩ := List.mem_map.mp hk'
        exact Or.inr (headField_instructionKey _)
    rcases hk with hk | hk
    · rcases hk' with hk' | hk'
      · exact ne_of_head hk hk' (by decide)
      · exact ne_of_head hk hk' (by decide)
    · rcases hk' with hk' | hk'
      · exact ne_of_head hk hk' (by decide)
      · exact ne_of_head hk hk' (by decide)

theorem headField_bodyKey {k : String} (hk : k ∈ S.bodyEntities.map (·.localKey)) :
    headField ':' k ∈ ["function", "arg", "block", "inst"] := by
  rw [(bodyKeys_perm S).mem_iff] at hk
  simp only [List.mem_append, List.mem_map, List.mem_singleton] at hk
  rcases hk with (rfl | ⟨_, _, rfl⟩) | ⟨_, _, rfl⟩ | ⟨_, _, rfl⟩
  · rw [headField_functionKey]
    decide
  · rw [headField_argumentKey]
    decide
  · rw [headField_blockKey]
    decide
  · rw [headField_instructionKey]
    decide

/-- **The keys of a stream are pairwise distinct.** -/
theorem graph_keys_nodup (S : Selected) (T : PostDominatorTree) :
    ((entityRecords (S.graph T).records).map (·.localKey)).Nodup := by
  have hL := structureEmitter_ledger S
  have hextra : S.operandEntities.map (·.localKey) =
      (S.structureEmitter.extraKeys.map (·.2)).reverse := by
    unfold operandEntities
    rw [List.map_map, ← List.map_reverse]
    rfl
  rw [graph_entities, List.map_append, List.nodup_append, hextra]
  refine ⟨bodyKeys_nodup S, List.nodup_reverse.mpr hL.keys, fun k hk k' hk' => ?_⟩
  obtain ⟨p, hp, rfl⟩ := List.mem_map.mp (List.mem_reverse.mp hk')
  obtain ⟨c, _, hc⟩ := hL.fresh p hp
  have hkind : headField ':' p.2 = S.freshKind p.1 := by
    rw [hc]
    exact headField_freshKey p.1 c
  have hmem := headField_bodyKey hk
  have hmem' := S.freshKind_mem p.1
  rintro rfl
  rw [hkind] at hmem
  rcases List.mem_cons.mp hmem' with he | he
  · rw [he] at hmem
    revert hmem
    decide
  · rw [List.mem_singleton.mp he] at hmem
    revert hmem
    decide

/-! ## 6. Endpoints -/

end Selected

/-- The nodes of the tree of a function are its blocks. -/
structure PostDominatorTree.Over (T : PostDominatorTree) (F : Function) : Prop where
  contains : ∀ i, T.contains i = true → i < F.blocks.length
  getIDom : ∀ n i, T.getIDom n = some (.block i) → i < F.blocks.length

theorem PostDominatorTree.Over.walk_lt {T : PostDominatorTree} {F : Function} (h : T.Over F)
    {stop runner : Option TreeNode} (hr : ∀ i, runner = some (.block i) → i < F.blocks.length) :
    ∀ i, .block i ∈ T.walk stop runner → i < F.blocks.length := by
  have key : ∀ k runner, (∀ i, runner = some (.block i) → i < F.blocks.length) →
      ∀ i, .block i ∈ T.walkFor stop k runner → i < F.blocks.length := by
    intro k
    induction k with
    | zero =>
      intro runner _ i hi
      exact absurd hi List.not_mem_nil
    | succ k ih =>
      intro runner hr i hi
      cases runner with
      | none => exact absurd hi List.not_mem_nil
      | some n =>
        simp only [walkFor] at hi
        split at hi
        · exact absurd hi List.not_mem_nil
        · rcases List.mem_cons.mp hi with rfl | hi
          · exact hr i rfl
          · exact ih (T.getIDom n) (fun j hj => h.getIDom n j hj) i hi
  exact key _ runner hr

theorem PostDominatorTree.Over.controlled_lt {T : PostDominatorTree} {F : Function} (h : T.Over F)
    {x z y : Nat} (hy : y ∈ T.controlled x z) : y < F.blocks.length := by
  unfold controlled at hy
  split at hy
  · exact absurd hy List.not_mem_nil
  · obtain ⟨hy, _⟩ := List.mem_filter.mp hy
    obtain ⟨n, hn, hb⟩ := List.mem_filterMap.mp hy
    rw [TreeNode.getBlock_eq_some] at hb
    subst hb
    refine h.walk_lt (fun i hi => ?_) y hn
    unfold getNode at hi
    split at hi
    · rename_i hc
      cases hi
      exact h.contains _ hc
    · cases hi

namespace Selected

variable {S : Selected} {T : PostDominatorTree}

/-- A key that an entity of the stream has, or that the catalog gives to a function. -/
def Declared (S : Selected) (T : PostDominatorTree) (k : String) : Prop :=
  k ∈ (entityRecords (S.graph T).records).map (·.localKey) ∨
    ∃ f ∈ functionRecords (catalog S.module), k = functionLocal f.key

theorem mem_functionRecords_catalog {M : Module} {i : Nat} {F : Function}
    (h : M.functions[i]? = some F) :
    ∃ f ∈ functionRecords (catalog M), f.key = Irez.functionKey i := by
  refine ⟨_, List.mem_filterMap.mpr ⟨functionRecord F i, ?_, rfl⟩, rfl⟩
  refine List.mem_append_right _ (List.mem_map.mpr ⟨(F, i), ?_, rfl⟩)
  exact List.mem_zipIdx_iff_getElem?.mpr h

theorem Declared.body {k : String} (h : k ∈ S.bodyEntities.map (·.localKey)) : S.Declared T k := by
  refine Or.inl ?_
  rw [graph_entities, List.map_append]
  exact List.mem_append_left _ h

theorem Declared.function (S : Selected) (T : PostDominatorTree) : S.Declared T S.functionKey :=
  .body (((bodyKeys_perm S).mem_iff).mpr (List.mem_append_left _ (List.mem_append_left _
    List.mem_cons_self)))

theorem Declared.argument {i : Nat} (h : i < S.function.arguments.length) :
    S.Declared T (S.argumentKey i) := by
  refine .body (((bodyKeys_perm S).mem_iff).mpr (List.mem_append_left _ (List.mem_append_right _
    (List.mem_map.mpr ⟨(S.function.arguments[i], i), ?_, rfl⟩))))
  exact List.mem_zipIdx_iff_getElem?.mpr (List.getElem?_eq_getElem h)

theorem mem_numbered {b : Nat} (h : b < S.function.blocks.length) :
    (S.function.blocks[b], b, S.function.firstInstruction b) ∈ S.numbered :=
  mem_numberBlocks.mpr ⟨b, List.getElem?_eq_getElem h, by omega, by simp [Function.firstInstruction]⟩

theorem Declared.block {b : Nat} (h : b < S.function.blocks.length) :
    S.Declared T (S.blockKey b) := by
  refine .body (((bodyKeys_perm S).mem_iff).mpr (List.mem_append_right _ (List.mem_append_left _
    (List.mem_map.mpr ⟨_, mem_numbered h, rfl⟩))))

theorem Declared.instruction {i : Nat} (h : i < S.function.instructions.length) :
    S.Declared T (S.instructionKey i) := by
  refine .body (((bodyKeys_perm S).mem_iff).mpr (List.mem_append_right _ (List.mem_append_right _
    (List.mem_map.mpr ⟨(S.function.instructions[i], i), ?_, rfl⟩))))
  exact List.mem_zipIdx_iff_getElem?.mpr (List.getElem?_eq_getElem h)

theorem Declared.named {V : Value} {k : String} (h : S.named S.structureEmitter V = some k) :
    S.Declared T k := by
  rcases named_cases h with h | h
  · rcases keys_eq_some h with ⟨i, hi, _, rfl⟩ | ⟨i, hi, _, rfl⟩ | ⟨i, hi, _, rfl⟩ | ⟨i, hi, _, rfl⟩
    · obtain ⟨f, hf, hk⟩ := mem_functionRecords_catalog (List.getElem?_eq_getElem hi)
      exact Or.inr ⟨f, hf, by rw [hk]⟩
    · exact .argument hi
    · exact .block hi
    · exact .instruction hi
  · refine Or.inl ?_
    rw [graph_entities, List.map_append]
    refine List.mem_append_right _ (List.mem_map.mpr ⟨_, List.mem_map.mpr
      ⟨(V, k), List.mem_reverse.mpr h, rfl⟩, rfl⟩)

theorem Declared.value {V : Value} (h : V ∈ S.values) : S.Declared T (S.name V) :=
  .named (named_name h)

theorem Declared.colon_mem {k : String} (h : S.Declared T k) : ':' ∈ k.toList := by
  rcases h with h | ⟨f, _, rfl⟩
  · obtain ⟨e, he, rfl⟩ := List.mem_map.mp h
    rw [graph_entities] at he
    rcases List.mem_append.mp he with he | he
    · exact (bodyEntities_scoped S e he).colon_mem
    · obtain ⟨p, hp, rfl⟩ := List.mem_map.mp he
      obtain ⟨c, _, hc⟩ := (structureEmitter_ledger S).fresh p (List.mem_reverse.mp hp)
      have := operandEntity_scoped S p.1 c
      rw [← hc] at this
      exact this.colon_mem
  · exact colon_mem_functionLocal f.key

/-! ### The instructions of a block -/

theorem blockInstructions_map (S : Selected) (u : Block × Nat × Nat) :
    (S.blockInstructions u).map (·.1) = u.1.instructions.zipIdx u.2.2 := by
  obtain ⟨B, b, first⟩ := u
  simp only [blockInstructions, Block.instructions, List.map_append, List.map_map,
    List.zipIdx_append]
  simp [Function.comp_def]

/-- The instructions of the function with their numbers and CFG edges. -/
def numberedInstructions (S : Selected) : List ((Instruction × Nat) × List RelationRecord) :=
  S.numbered.flatMap S.blockInstructions

theorem numberedInstructions_map (S : Selected) :
    S.numberedInstructions.map (·.1) = S.function.instructions.zipIdx := by
  unfold numberedInstructions
  rw [← numbered_instructions, List.map_flatMap]
  exact List.flatMap_congr fun u _ => blockInstructions_map S u

theorem instruction_of_mem {Iis : (Instruction × Nat) × List RelationRecord}
    (h : Iis ∈ S.numberedInstructions) : S.function.instructions[Iis.1.2]? = some Iis.1.1 := by
  have hm : Iis.1 ∈ S.function.instructions.zipIdx := by
    rw [← numberedInstructions_map]
    exact List.mem_map_of_mem h
  exact List.mem_zipIdx_iff_getElem?.mp hm

/-- The CFG edges that go with an instruction lead from it to blocks of the function. -/
theorem successors_of_mem {Iis : (Instruction × Nat) × List RelationRecord}
    (h : Iis ∈ S.numberedInstructions) {q : RelationRecord} (hq : q ∈ Iis.2) :
    q.kind = "llvm.cfg-successor" ∧ q.src = S.instructionKey Iis.1.2 ∧
      ∃ z < S.function.blocks.length, q.dst = S.blockKey z := by
  obtain ⟨⟨B, b, first⟩, hu, hI⟩ := List.mem_flatMap.mp h
  rcases List.mem_append.mp hI with hI | hI
  · obtain ⟨_, _, rfl⟩ := List.mem_map.mp hI
    exact absurd hq List.not_mem_nil
  · rw [List.mem_singleton.mp hI] at hq ⊢
    obtain ⟨⟨z, s⟩, hz, rfl⟩ := List.mem_map.mp hq
    obtain ⟨j, hj, _, _⟩ := mem_numberBlocks.mp hu
    have hlt : z < S.function.blocks.length :=
      S.function.successors_lt B (List.mem_of_getElem? hj) z
        (List.mem_of_getElem? (List.mem_zipIdx_iff_getElem?.mp hz))
    refine ⟨rfl, rfl, z, hlt, ?_⟩
    simp [relation, keys, hlt]

/-- What a relation of an instruction can be. -/
theorem mem_instructionRelations {κ : Value → String} {blockKey : String}
    {successors : List RelationRecord} {I : Instruction} {i : Nat} {q : RelationRecord}
    (h : q ∈ S.instructionRelations κ blockKey successors (I, i)) :
    q = containsRelation blockKey (S.instructionKey i) ∨
    (q.src = S.instructionKey i ∧ q.kind ∈ structuralKinds ∧
      ∃ V ∈ I.operands ++ calledValues I, q.dst = κ V) ∨ q ∈ successors := by
  simp only [instructionRelations, List.mem_append, List.mem_singleton, List.mem_flatMap] at h
  rcases h with ((h | ⟨⟨V, o⟩, hV, h⟩) | h) | h
  · exact Or.inl h
  · have hV : V ∈ I.operands ++ calledValues I :=
      List.mem_append_left _ (List.mem_of_getElem? (List.mem_zipIdx_iff_getElem?.mp hV))
    simp only [operandRelations, List.mem_append, List.mem_singleton] at h
    rcases h with rfl | h
    · exact Or.inr (Or.inl ⟨rfl, by simp [relation, structuralKinds], V, hV, rfl⟩)
    · split at h
      · rw [List.mem_singleton.mp h]
        exact Or.inr (Or.inl ⟨rfl, by simp [relation, structuralKinds], V, hV, rfl⟩)
      · exact absurd h List.not_mem_nil
  · exact Or.inr (Or.inr h)
  · unfold callRelations at h
    split at h
    · rename_i j hj
      rw [List.mem_singleton.mp h]
      refine Or.inr (Or.inl ⟨rfl, by simp [relation, structuralKinds], .function j, ?_, rfl⟩)
      refine List.mem_append_right _ ?_
      simp [calledValues, hj]
    · exact absurd h List.not_mem_nil

theorem value_of_instruction {I : Instruction} {i : Nat} (hI : S.function.instructions[i]? = some I)
    {V : Value} (hV : V ∈ I.operands ++ calledValues I) : V ∈ S.values :=
  List.mem_flatMap.mpr ⟨I, List.mem_of_getElem? hI, hV⟩

/-- **Every relation of a stream joins declared keys.** -/
theorem relation_declared (hT : T.Over S.function) {q : RelationRecord}
    (hq : q ∈ relationRecords (S.graph T).records) :
    q.kind ≠ "" ∧ S.Declared T q.src ∧ S.Declared T q.dst := by
  have hkinds : ∀ k ∈ structuralKinds, k ≠ "" := by decide
  have hcontains : containsRelation = fun src dst => relation "llvm.contains" src dst none [] := rfl
  rw [graph_relations] at hq
  rcases List.mem_append.mp hq with hq | hq
  · rcases List.mem_append.mp hq with hq | hq
    · obtain ⟨⟨A, i⟩, hA, rfl⟩ := List.mem_map.mp hq
      have hi := (List.getElem?_eq_some_iff.mp (List.mem_zipIdx_iff_getElem?.mp hA)).1
      exact ⟨by simp [hcontains, relation], .function S T, .argument hi⟩
    · obtain ⟨u, hu, hq⟩ := List.mem_flatMap.mp hq
      have hb : u.2.1 < S.function.blocks.length :=
        (List.getElem?_eq_some_iff.mp (terminator_of_mem_numbered hu).1).1
      rcases List.mem_append.mp hq with hq | hq
      · rw [List.mem_singleton.mp hq]
        exact ⟨by simp [hcontains, relation], .function S T, .block hb⟩
      · obtain ⟨⟨⟨I, i⟩, successors⟩, hI, hq⟩ := List.mem_flatMap.mp hq
        have hm : ((I, i), successors) ∈ S.numberedInstructions := List.mem_flatMap.mpr ⟨u, hu, hI⟩
        have hi := instruction_of_mem hm
        have hlt := (List.getElem?_eq_some_iff.mp hi).1
        rcases mem_instructionRelations hq with rfl | ⟨hsrc, hk, V, hV, hdst⟩ | hq
        · exact ⟨by simp [hcontains, relation], .block hb, .instruction hlt⟩
        · rw [hsrc, hdst]
          exact ⟨hkinds _ hk, .instruction hlt, .value (value_of_instruction hi hV)⟩
        · obtain ⟨hk, hsrc, z, hz, hdst⟩ := successors_of_mem hm hq
          rw [hsrc, hdst, hk]
          exact ⟨by decide, .instruction hlt, .block hz⟩
  · rw [controlRelations, mem_relationRecords] at hq
    obtain ⟨x, s, z, y, B, hB, hs, hy, he⟩ := mem_controlDependence.mp hq
    cases he
    have hylt := hT.controlled_lt hy
    have hterm : S.function.terminatorNumber x < S.function.instructions.length := by
      obtain ⟨hx, rfl⟩ := List.getElem?_eq_some_iff.mp hB
      have hm : ((S.function.blocks[x].terminator, S.function.terminatorNumber x),
          S.successorRows S.function.blocks[x] (S.function.terminatorNumber x)) ∈
          S.numberedInstructions := by
        refine List.mem_flatMap.mpr ⟨_, mem_numbered hx, List.mem_append_right _ ?_⟩
        simp [Function.terminatorNumber, hx]
      exact (List.getElem?_eq_some_iff.mp (instruction_of_mem hm)).1
    refine ⟨by simp [relation], ?_, .instruction hterm⟩
    have hkey : (S.keys (.block y)).getD "" = S.blockKey y := by simp [keys, hylt]
    rw [relation, hkey]
    exact .block hylt

end Selected

end Irez
