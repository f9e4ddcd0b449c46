/-
  File:      Irez/Outline.lean
  Subject:   Reading a function back from its stream, and the stream against the checks of
             `materialize`.

  The reader knows no position in the stream: it collects what a parent contains and what
  leaves an instruction, and orders it by ordinal.

  * `Outline`, `Function.outline` -- what a stream says of a function, up to the names of
    its values;
  * `readStream` -- the reader; `readStream_graph`: it finds the outline;
  * `Catalogued`, `Sound.catalogued` -- the functions of a module have their rows, as a
    published catalog leaves them; `Selected.checks_ok`: no check of a publish rejects the
    stream then, and `Selected.publish_commits`: the publish of a claimed function commits;
  * `function_graph_faithful` -- the main result.
-/
import Irez.Acceptance
import Irez.Encoding

open Irez.Basis

namespace Irez

/-! ## 1. Outlines -/

/-- What a stream says of an instruction; operands are named, blocks numbered. -/
structure InstructionOutline where
  name : String
  opcode : String
  type : String
  text : String
  attributes : Attributes
  operands : List String
  /-- The incoming block of each operand. -/
  incoming : List (Option Nat)
  successors : List Nat
  deriving DecidableEq, Repr

structure BlockOutline where
  name : String
  instructions : List InstructionOutline
  deriving DecidableEq, Repr

structure Outline where
  arguments : List ValueText
  blocks : List BlockOutline
  deriving DecidableEq, Repr

section Outline

variable (κ : Value → String)

def Instruction.outline (I : Instruction) (successors : List Nat) : InstructionOutline :=
  { name := I.name, opcode := I.opcode, type := I.type, text := I.text,
    attributes := I.attributes, operands := I.operands.map κ,
    incoming := I.operands.zipIdx.map fun Vo => I.incoming.bind (·[Vo.2]?),
    successors := successors }

def Block.outline (B : Block) : BlockOutline :=
  { name := B.name,
    instructions := B.body.map (·.outline κ []) ++ [B.terminator.outline κ B.successors] }

/-- The function under the names `κ` of its values. -/
def Function.outline (F : Function) : Outline :=
  { arguments := F.arguments, blocks := F.blocks.map (·.outline κ) }

end Outline

/-- Phi nodes name blocks of their function. -/
def Function.ValidPhis (F : Function) : Prop :=
  ∀ I ∈ F.instructions, ∀ bs, I.incoming = some bs → ∀ b ∈ bs, b < F.blocks.length

/-! ## 2. The reader -/

section Reader

/-- In the order of their ordinals. -/
def byOrdinal {α : Type} (ordinal : α → Option Int) (l : List α) : List α :=
  l.insertionSort fun x y => (ordinal x).getD 0 ≤ (ordinal y).getD 0

variable (records : List Record)

/-- The entities of a kind that an entity contains. -/
def children (parent kind : String) : List EntityRecord :=
  byOrdinal (·.ordinal) ((entityRecords records).filter fun e => e.kind = kind &&
    (relationRecords records).any fun q =>
      q.kind = "llvm.contains" && q.src = parent && q.dst = e.localKey)

/-- The relations of a kind that leave an entity. -/
def outgoing (kind src : String) : List RelationRecord :=
  byOrdinal (·.ordinal) ((relationRecords records).filter fun q => q.kind = kind && q.src = src)

/-- The position of the block with a key. -/
def position (blocks : List EntityRecord) (key : String) : Option Nat :=
  blocks.findIdx? (·.localKey = key)

def incomingPosition (blocks : List EntityRecord) (q : RelationRecord) : Option Nat :=
  match q.attributes.lookup "incoming_block" with
  | some (.str key) => position blocks key
  | _ => none

def readInstruction (blocks : List EntityRecord) (e : EntityRecord) : InstructionOutline :=
  { name := e.name.getD "", opcode := e.opcode.getD "", type := e.llvmType.getD "",
    text := e.exactText.getD "", attributes := e.attributes,
    operands := (outgoing records "llvm.operand" e.localKey).map (·.dst),
    incoming := (outgoing records "llvm.operand" e.localKey).map (incomingPosition blocks),
    successors :=
      (outgoing records "llvm.cfg-successor" e.localKey).filterMap (position blocks ·.dst) }

def readBlock (blocks : List EntityRecord) (e : EntityRecord) : BlockOutline :=
  { name := e.name.getD "",
    instructions :=
      (children records e.localKey "instruction").map (readInstruction records blocks) }

def readArgument (e : EntityRecord) : ValueText :=
  ⟨e.name.getD "", e.llvmType.getD "", e.exactText.getD ""⟩

/-- The function of a stream: its key is that of the stream's function entity. -/
def readStream : Outline :=
  let key := (((entityRecords records).find? (·.kind = "function")).map (·.localKey)).getD ""
  let blocks := children records key "basic_block"
  { arguments := (children records key "argument").map readArgument,
    blocks := blocks.map (readBlock records blocks) }

end Reader

/-! ## 3. What the reader collects -/

/-- Where one element alone contributes, a `flatMap` is its contribution. -/
theorem flatMap_unique {α β κ : Type} {key : α → κ} {l : List α} (hl : (l.map key).Nodup) {x : α}
    (hx : x ∈ l) {f : α → List β} (h : ∀ y ∈ l, key y ≠ key x → f y = []) :
    l.flatMap f = f x := by
  induction l with
  | nil => exact absurd hx List.not_mem_nil
  | cons y l ih =>
    obtain ⟨hy, hl⟩ := List.nodup_cons.mp hl
    rw [List.flatMap_cons]
    rcases List.mem_cons.mp hx with rfl | hx
    · have hrest : l.flatMap f = [] := by
        refine List.flatMap_eq_nil_iff.mpr fun z hz => h z (List.mem_cons_of_mem _ hz) fun he => ?_
        exact hy (he ▸ List.mem_map_of_mem hz)
      rw [hrest, List.append_nil]
    · have hne : key y ≠ key x := fun he => hy (he ▸ List.mem_map_of_mem hx)
      rw [h y List.mem_cons_self hne, List.nil_append]
      exact ih hl hx fun z hz => h z (List.mem_cons_of_mem _ hz)

theorem flatMap_none {α β : Type} {l : List α} {f : α → List β} (h : ∀ x ∈ l, f x = []) :
    l.flatMap f = [] :=
  List.flatMap_eq_nil_iff.mpr h

theorem filter_flatMap_eq {α β : Type} (p : β → Bool) (f : α → List β) (l : List α) :
    (l.flatMap f).filter p = l.flatMap fun x => (f x).filter p :=
  List.filter_flatMap ..

/-- Numbered in order, a list is in the order of its ordinals. -/
theorem byOrdinal_zipIdx {α β : Type} (ordinal : β → Option Int) {f : α × Nat → β}
    (hf : ∀ p, ordinal (f p) = some (p.2 : Int)) (l : List α) (n : Nat) :
    byOrdinal ordinal ((l.zipIdx n).map f) = (l.zipIdx n).map f := by
  refine List.Pairwise.insertionSort_eq ?_
  rw [List.pairwise_map]
  have h : (((l.zipIdx n).map (·.2))).Pairwise (· ≤ ·) := by
    rw [List.zipIdx_map_snd]
    exact List.pairwise_le_range'
  rw [List.pairwise_map] at h
  refine h.imp fun {p q} hpq => ?_
  simp only [hf, Option.getD_some]
  omega

namespace Selected

variable {S : Selected} {T : PostDominatorTree} {κ : Value → String}

/-- The number of an instruction is in the range of its block. -/
theorem number_bounds {u : Block × Nat × Nat} (hu : u ∈ S.numbered) {Ii : Instruction × Nat}
    (hI : Ii ∈ u.1.instructions.zipIdx u.2.2) :
    S.function.firstInstruction u.2.1 ≤ Ii.2 ∧ Ii.2 < S.function.firstInstruction (u.2.1 + 1) := by
  obtain ⟨B, b, first⟩ := u
  obtain ⟨j, hB, hb, hfirst⟩ := mem_numberBlocks.mp hu
  obtain rfl : b = j := by omega
  have hsucc := Function.firstInstruction_succ hB
  have hterm : S.function.terminatorNumber b = S.function.firstInstruction b + B.body.length := by
    simp [Function.terminatorNumber, hB]
  have hnum : first = S.function.firstInstruction b := by
    rw [hfirst, Nat.zero_add]
    rfl
  have hle := List.le_snd_of_mem_zipIdx hI
  have hlt := List.snd_lt_add_of_mem_zipIdx hI
  have hlen : B.instructions.length = B.body.length + 1 := by simp [Block.instructions]
  simp only at hle hlt ⊢
  omega

theorem numbered_nodup (S : Selected) : (S.numbered.map fun u => u.2.1).Nodup :=
  List.pairwise_map.mpr (numberBlocks_pairwise 0 0 S.function.blocks)

/-- An instruction is in one block. -/
theorem block_unique {u v : Block × Nat × Nat} (hu : u ∈ S.numbered) (hv : v ∈ S.numbered)
    {Ii Jj : Instruction × Nat} (hI : Ii ∈ u.1.instructions.zipIdx u.2.2)
    (hJ : Jj ∈ v.1.instructions.zipIdx v.2.2) (he : Ii.2 = Jj.2) : u.2.1 = v.2.1 := by
  obtain ⟨h1, h2⟩ := number_bounds hu hI
  obtain ⟨h3, h4⟩ := number_bounds hv hJ
  rcases Nat.lt_trichotomy u.2.1 v.2.1 with hlt | heq | hlt
  · have := S.function.firstInstruction_mono (Nat.succ_le_of_lt hlt)
    rw [Nat.succ_eq_add_one] at this
    omega
  · exact heq
  · have := S.function.firstInstruction_mono (Nat.succ_le_of_lt hlt)
    rw [Nat.succ_eq_add_one] at this
    omega

theorem numberBlocks_zipIdx (b i : Nat) (Bs : List Block) :
    (numberBlocks b i Bs).map (fun u => (u.1, u.2.1)) = Bs.zipIdx b := by
  induction Bs generalizing b i with
  | nil => rfl
  | cons B Bs ih => rw [numberBlocks, List.map_cons, ih, List.zipIdx_cons]

theorem numbered_blocks (S : Selected) :
    S.numbered.map (fun u => (u.1, u.2.1)) = S.function.blocks.zipIdx :=
  numberBlocks_zipIdx 0 0 S.function.blocks

/-! ### Containment -/

/-- `llvm.contains` from `parent` to `child`. -/
def Contains (S : Selected) (T : PostDominatorTree) (parent child : String) : Bool :=
  (relationRecords (S.graph T).records).any fun q =>
    q.kind = "llvm.contains" && q.src = parent && q.dst = child

theorem contains_of_mem {parent child : String}
    (h : containsRelation parent child ∈ S.structureRelations S.name) :
    S.Contains T parent child = true := by
  refine List.any_eq_true.mpr ⟨containsRelation parent child, ?_, ?_⟩
  · rw [graph_relations]
    exact List.mem_append_left _ h
  · simp [containsRelation, relation]

theorem contains_argument {Ai : ValueText × Nat} (h : Ai ∈ S.function.arguments.zipIdx) :
    S.Contains T S.functionKey (S.argumentKey Ai.2) = true :=
  contains_of_mem (List.mem_append_left _ (List.mem_map.mpr ⟨Ai, h, rfl⟩))

theorem contains_block {u : Block × Nat × Nat} (h : u ∈ S.numbered) :
    S.Contains T S.functionKey (S.blockKey u.2.1) = true :=
  contains_of_mem (List.mem_append_right _ (List.mem_flatMap.mpr ⟨u, h, List.mem_cons_self⟩))

/-- **A block contains exactly its instructions.** -/
theorem contains_instruction {u : Block × Nat × Nat} (hu : u ∈ S.numbered) {i : Nat} :
    S.Contains T (S.blockKey u.2.1) (S.instructionKey i) = true ↔
      ∃ I, (I, i) ∈ u.1.instructions.zipIdx u.2.2 := by
  constructor
  · intro h
    obtain ⟨q, hq, he⟩ := List.any_eq_true.mp h
    simp only [Bool.and_eq_true, decide_eq_true_eq] at he
    obtain ⟨⟨hk, hsrc⟩, hdst⟩ := he
    rw [graph_relations] at hq
    have hfun : S.functionKey ≠ S.blockKey u.2.1 :=
      ne_of_head headField_functionKey (headField_blockKey _) (by decide)
    rcases List.mem_append.mp hq with hq | hq
    · rcases List.mem_append.mp hq with hq | hq
      · obtain ⟨_, _, rfl⟩ := List.mem_map.mp hq
        exact absurd hsrc hfun
      · obtain ⟨v, hv, hq⟩ := List.mem_flatMap.mp hq
        rcases List.mem_append.mp hq with hq | hq
        · rw [List.mem_singleton.mp hq] at hsrc
          exact absurd hsrc hfun
        · obtain ⟨⟨⟨I, j⟩, successors⟩, hI, hq⟩ := List.mem_flatMap.mp hq
          have hm : ((I, j), successors) ∈ S.numberedInstructions :=
            List.mem_flatMap.mpr ⟨v, hv, hI⟩
          have hinst : q.src = S.instructionKey j → False := fun he =>
            ne_of_head (headField_blockKey u.2.1) (headField_instructionKey j) (by decide)
              (hsrc.symm.trans he)
          rcases mem_instructionRelations hq with rfl | ⟨he, _⟩ | hq
          · have hb : v.2.1 = u.2.1 := S.blockKey_inj hsrc
            have hj : j = i := S.instructionKey_inj hdst
            have hIj : (I, j) ∈ v.1.instructions.zipIdx v.2.2 := by
              rw [← blockInstructions_map S v]
              exact List.mem_map.mpr ⟨_, hI, rfl⟩
            have huv : v = u := List.inj_on_of_nodup_map (numbered_nodup S) hv hu hb
            rw [← huv, ← hj]
            exact ⟨I, hIj⟩
          · exact (hinst he).elim
          · exact (hinst (successors_of_mem hm hq).2.1).elim
    · rw [controlRelations, mem_relationRecords] at hq
      obtain ⟨_, _, _, _, he⟩ := controlDependence_relation S T _ hq
      cases he
      simp [relation] at hk
  · rintro ⟨I, hI⟩
    rw [← blockInstructions_map S u] at hI
    obtain ⟨⟨Ii, successors⟩, hm, rfl⟩ := List.mem_map.mp hI
    refine contains_of_mem (List.mem_append_right _ (List.mem_flatMap.mpr ⟨u, hu,
      List.mem_append_right _ (List.mem_flatMap.mpr ⟨_, hm, ?_⟩)⟩))
    simp [instructionRelations]

/-! ### Entities -/

theorem filter_nil_of_kind {l : List EntityRecord} {k : String} {p : EntityRecord → Bool}
    (h : ∀ e ∈ l, e.kind ≠ k) : (l.filter fun e => e.kind = k && p e) = [] := by
  refine List.filter_eq_nil_iff.mpr fun e he => ?_
  simp [h e he]

theorem operandEntities_kind : ∀ e ∈ S.operandEntities, e.kind ∈ ["global", "constant"] := by
  intro e he
  obtain ⟨p, _, rfl⟩ := List.mem_map.mp he
  exact S.freshKind_mem p.1

/-- The entities of a kind inside a function, in the order of the stream. -/
theorem filter_entities {k : String} (hk : k ∈ ["argument", "basic_block", "instruction"])
    (p : EntityRecord → Bool) :
    ((entityRecords (S.graph T).records).filter fun e => e.kind = k && p e) =
      (S.function.arguments.zipIdx.map fun Ai => S.argumentEntity Ai.1 Ai.2).filter
          (fun e => e.kind = k && p e) ++
        S.numbered.flatMap fun u => (S.blockEntities u).filter fun e => e.kind = k && p e := by
  have hfun : ([S.functionEntity].filter fun e => e.kind = k && p e) = [] := by
    refine filter_nil_of_kind fun e he => ?_
    rw [List.mem_singleton.mp he]
    revert hk
    simp only [List.mem_cons, List.not_mem_nil, or_false]
    rintro (rfl | rfl | rfl) <;> simp [functionEntity]
  have hops : (S.operandEntities.filter fun e => e.kind = k && p e) = [] := by
    refine filter_nil_of_kind fun e he h => ?_
    have hm := operandEntities_kind e he
    rw [h] at hm
    revert hk hm
    simp only [List.mem_cons, List.not_mem_nil, or_false]
    rintro (rfl | rfl | rfl) <;> simp
  have hbody : S.bodyEntities = [S.functionEntity] ++
      S.function.arguments.zipIdx.map (fun Ai => S.argumentEntity Ai.1 Ai.2) ++
        S.numbered.flatMap S.blockEntities := rfl
  rw [graph_entities, hbody, List.filter_append, List.filter_append, List.filter_append, hfun, hops,
    List.nil_append, List.append_nil, filter_flatMap_eq]

/-- **The arguments of the stream**, by containment and ordinal. -/
theorem children_arguments (S : Selected) (T : PostDominatorTree) :
    children (S.graph T).records S.functionKey "argument" =
      S.function.arguments.zipIdx.map fun Ai => S.argumentEntity Ai.1 Ai.2 := by
  have hargs : (S.function.arguments.zipIdx.map fun Ai => S.argumentEntity Ai.1 Ai.2).filter
      (fun e => e.kind = "argument" && S.Contains T S.functionKey e.localKey) =
      S.function.arguments.zipIdx.map fun Ai => S.argumentEntity Ai.1 Ai.2 := by
    refine List.filter_eq_self.mpr fun e he => ?_
    obtain ⟨Ai, hAi, rfl⟩ := List.mem_map.mp he
    simp [argumentEntity, contains_argument hAi]
  have hblocks : (S.numbered.flatMap fun u => (S.blockEntities u).filter fun e =>
      e.kind = "argument" && S.Contains T S.functionKey e.localKey) = [] := by
    refine flatMap_none fun u _ => filter_nil_of_kind fun e he => ?_
    rcases List.mem_cons.mp he with rfl | he
    · simp [blockEntity]
    · obtain ⟨_, _, rfl⟩ := List.mem_map.mp he
      simp [instructionEntity]
  have h := filter_entities (S := S) (T := T) (k := "argument") (by decide)
    fun e => S.Contains T S.functionKey e.localKey
  rw [hargs, hblocks, List.append_nil] at h
  unfold children
  refine (congrArg _ h).trans ?_
  exact byOrdinal_zipIdx EntityRecord.ordinal (fun _ => rfl) S.function.arguments 0

/-- **The blocks of the stream.** -/
theorem children_blocks (S : Selected) (T : PostDominatorTree) :
    children (S.graph T).records S.functionKey "basic_block" =
      S.function.blocks.zipIdx.map fun Bb => S.blockEntity Bb.1 Bb.2 := by
  have hargs : (S.function.arguments.zipIdx.map fun Ai => S.argumentEntity Ai.1 Ai.2).filter
      (fun e => e.kind = "basic_block" && S.Contains T S.functionKey e.localKey) = [] := by
    refine filter_nil_of_kind fun e he => ?_
    obtain ⟨Ai, _, rfl⟩ := List.mem_map.mp he
    simp [argumentEntity]
  have hblocks : (S.numbered.flatMap fun u => (S.blockEntities u).filter fun e =>
      e.kind = "basic_block" && S.Contains T S.functionKey e.localKey) =
      S.function.blocks.zipIdx.map fun Bb => S.blockEntity Bb.1 Bb.2 := by
    rw [← numbered_blocks, List.map_map, List.map_eq_flatMap]
    refine List.flatMap_congr fun u hu => ?_
    obtain ⟨B, b, first⟩ := u
    have hinst : ((B.instructions.zipIdx first).map fun Ii => S.instructionEntity Ii.1 Ii.2).filter
        (fun e => e.kind = "basic_block" && S.Contains T S.functionKey e.localKey) = [] := by
      refine filter_nil_of_kind fun e he => ?_
      obtain ⟨_, _, rfl⟩ := List.mem_map.mp he
      simp [instructionEntity]
    have hsplit : S.blockEntities (B, b, first) = [S.blockEntity B b] ++
        (B.instructions.zipIdx first).map fun Ii => S.instructionEntity Ii.1 Ii.2 := rfl
    rw [hsplit, List.filter_append, hinst, List.append_nil]
    refine List.filter_eq_self.mpr fun e he => ?_
    rw [List.mem_singleton.mp he]
    simp [blockEntity, contains_block hu]
  have h := filter_entities (S := S) (T := T) (k := "basic_block") (by decide)
    fun e => S.Contains T S.functionKey e.localKey
  rw [hargs, hblocks, List.nil_append] at h
  unfold children
  refine (congrArg _ h).trans ?_
  exact byOrdinal_zipIdx EntityRecord.ordinal (fun _ => rfl) S.function.blocks 0

/-- **The instructions of a block of the stream.** -/
theorem children_instructions {u : Block × Nat × Nat} (hu : u ∈ S.numbered) :
    children (S.graph T).records (S.blockKey u.2.1) "instruction" =
      (u.1.instructions.zipIdx u.2.2).map fun Ii => S.instructionEntity Ii.1 Ii.2 := by
  have hargs : (S.function.arguments.zipIdx.map fun Ai => S.argumentEntity Ai.1 Ai.2).filter
      (fun e => e.kind = "instruction" && S.Contains T (S.blockKey u.2.1) e.localKey) = [] := by
    refine filter_nil_of_kind fun e he => ?_
    obtain ⟨Ai, _, rfl⟩ := List.mem_map.mp he
    simp [argumentEntity]
  have hskip : ∀ v : Block × Nat × Nat, ((S.blockEntities v).filter fun e =>
      e.kind = "instruction" && S.Contains T (S.blockKey u.2.1) e.localKey) =
      ((v.1.instructions.zipIdx v.2.2).map fun Ii => S.instructionEntity Ii.1 Ii.2).filter
        fun e => S.Contains T (S.blockKey u.2.1) e.localKey := by
    intro v
    have hsplit : S.blockEntities v = [S.blockEntity v.1 v.2.1] ++
        (v.1.instructions.zipIdx v.2.2).map fun Ii => S.instructionEntity Ii.1 Ii.2 := rfl
    have hself : ([S.blockEntity v.1 v.2.1].filter fun e =>
        e.kind = "instruction" && S.Contains T (S.blockKey u.2.1) e.localKey) = [] := by
      refine filter_nil_of_kind fun e he => ?_
      rw [List.mem_singleton.mp he]
      simp [blockEntity]
    rw [hsplit, List.filter_append, hself, List.nil_append]
    refine List.filter_congr fun e he => ?_
    obtain ⟨Ii, _, rfl⟩ := List.mem_map.mp he
    simp [instructionEntity]
  have hblocks : (S.numbered.flatMap fun v => (S.blockEntities v).filter fun e =>
      e.kind = "instruction" && S.Contains T (S.blockKey u.2.1) e.localKey) =
      (u.1.instructions.zipIdx u.2.2).map fun Ii => S.instructionEntity Ii.1 Ii.2 := by
    refine (flatMap_unique (numbered_nodup S) hu fun v hv hne => ?_).trans ?_
    · rw [hskip v]
      refine List.filter_eq_nil_iff.mpr fun e he hc => hne ?_
      obtain ⟨Ii, hIi, rfl⟩ := List.mem_map.mp he
      obtain ⟨J, hJ⟩ := (contains_instruction hu).mp hc
      exact block_unique hv hu hIi hJ rfl
    · rw [hskip u]
      refine List.filter_eq_self.mpr fun e he => ?_
      obtain ⟨Ii, hIi, rfl⟩ := List.mem_map.mp he
      exact (contains_instruction hu).mpr ⟨Ii.1, hIi⟩
  have h := filter_entities (S := S) (T := T) (k := "instruction") (by decide)
    fun e => S.Contains T (S.blockKey u.2.1) e.localKey
  rw [hargs, hblocks, List.nil_append] at h
  unfold children
  refine (congrArg _ h).trans ?_
  exact byOrdinal_zipIdx EntityRecord.ordinal (fun _ => rfl) u.1.instructions u.2.2

/-! ### Relations -/

theorem numberedInstructions_nodup (S : Selected) :
    (S.numberedInstructions.map fun Iis => Iis.1.2).Nodup := by
  have h : (S.numberedInstructions.map fun Iis => Iis.1.2) =
      List.range' 0 S.function.instructions.length := by
    rw [← List.zipIdx_map_snd 0 S.function.instructions, ← numberedInstructions_map, List.map_map]
    rfl
  rw [h]
  exact List.nodup_range'

/-- What an instruction adds besides its containment. -/
def ownRelations (S : Selected) (κ : Value → String)
    (Iis : (Instruction × Nat) × List RelationRecord) : List RelationRecord :=
  Iis.1.1.operands.zipIdx.flatMap (S.operandRelations κ Iis.1.1 (S.instructionKey Iis.1.2)) ++
    Iis.2 ++ S.callRelations κ Iis.1.1 (S.instructionKey Iis.1.2)

theorem ownRelations_src {Iis : (Instruction × Nat) × List RelationRecord}
    (h : Iis ∈ S.numberedInstructions) {q : RelationRecord} (hq : q ∈ S.ownRelations κ Iis) :
    q.src = S.instructionKey Iis.1.2 := by
  have hq' : q ∈ (Iis.1.1.operands.zipIdx.flatMap
      (S.operandRelations κ Iis.1.1 (S.instructionKey Iis.1.2)) ++ Iis.2) ++
      S.callRelations κ Iis.1.1 (S.instructionKey Iis.1.2) := hq
  rcases List.mem_append.mp hq' with hq | hq
  · rcases List.mem_append.mp hq with hq | hq
    · obtain ⟨⟨V, o⟩, _, hq⟩ := List.mem_flatMap.mp hq
      rcases List.mem_append.mp hq with hq | hq
      · rw [List.mem_singleton.mp hq]
        rfl
      · split at hq
        · rw [List.mem_singleton.mp hq]
          rfl
        · exact absurd hq List.not_mem_nil
    · exact (successors_of_mem h hq).2.1
  · unfold callRelations at hq
    split at hq
    · rw [List.mem_singleton.mp hq]
      rfl
    · exact absurd hq List.not_mem_nil

/-- The relations of a kind that leave an instruction are among its own. -/
theorem filter_relations {k : String} (hk : k ≠ "llvm.contains") (hk' : k ≠ "llvm.control-dependence")
    {Iis : (Instruction × Nat) × List RelationRecord} (h : Iis ∈ S.numberedInstructions) :
    ((relationRecords (S.graph T).records).filter fun q =>
        q.kind = k && q.src = S.instructionKey Iis.1.2) =
      (S.ownRelations S.name Iis).filter fun q => q.kind = k := by
  have hcont : ∀ src dst, ([containsRelation src dst].filter fun q =>
      q.kind = k && q.src = S.instructionKey Iis.1.2) = [] := by
    intro src dst
    refine List.filter_eq_nil_iff.mpr fun q hq => ?_
    rw [List.mem_singleton.mp hq]
    simp [containsRelation, relation, hk.symm]
  have hargs : ((S.function.arguments.zipIdx.map fun Ai =>
      containsRelation S.functionKey (S.argumentKey Ai.2)).filter fun q =>
        q.kind = k && q.src = S.instructionKey Iis.1.2) = [] := by
    refine List.filter_eq_nil_iff.mpr fun q hq => ?_
    obtain ⟨_, _, rfl⟩ := List.mem_map.mp hq
    simp [containsRelation, relation, hk.symm]
  have hcontrol : ((S.controlRelations T).filter fun q =>
      q.kind = k && q.src = S.instructionKey Iis.1.2) = [] := by
    refine List.filter_eq_nil_iff.mpr fun q hq => ?_
    rw [controlRelations, mem_relationRecords] at hq
    obtain ⟨_, _, _, _, he⟩ := controlDependence_relation S T _ hq
    cases he
    simp [relation, hk'.symm]
  -- block by block, then instruction by instruction
  have hblock : ∀ u, ((S.blockRelations S.name u).filter fun q =>
      q.kind = k && q.src = S.instructionKey Iis.1.2) =
      (S.blockInstructions u).flatMap fun Jjs => (S.ownRelations S.name Jjs).filter fun q =>
        q.kind = k && q.src = S.instructionKey Iis.1.2 := by
    intro u
    unfold blockRelations
    rw [List.filter_append, hcont, List.nil_append, filter_flatMap_eq]
    refine List.flatMap_congr fun Jjs _ => ?_
    obtain ⟨⟨J, j⟩, successors⟩ := Jjs
    have he : S.instructionRelations S.name (S.blockKey u.2.1) successors (J, j) =
        [containsRelation (S.blockKey u.2.1) (S.instructionKey j)] ++
          S.ownRelations S.name ((J, j), successors) := by
      simp only [instructionRelations, ownRelations, List.append_assoc]
    rw [he, List.filter_append, hcont, List.nil_append]
  have hall : ((S.numbered.flatMap (S.blockRelations S.name)).filter fun q =>
      q.kind = k && q.src = S.instructionKey Iis.1.2) =
      S.numberedInstructions.flatMap fun Jjs => (S.ownRelations S.name Jjs).filter fun q =>
        q.kind = k && q.src = S.instructionKey Iis.1.2 := by
    rw [filter_flatMap_eq, List.flatMap_congr fun u _ => hblock u, numberedInstructions,
      List.flatMap_assoc]
  rw [graph_relations, structureRelations, List.filter_append, List.filter_append, hargs, hcontrol,
    List.nil_append, List.append_nil, hall]
  refine (flatMap_unique (numberedInstructions_nodup S) h fun Jjs hJ hne => ?_).trans ?_
  · refine List.filter_eq_nil_iff.mpr fun q hq hp => hne ?_
    simp only [Bool.and_eq_true, decide_eq_true_eq] at hp
    exact S.instructionKey_inj ((ownRelations_src hJ hq).symm.trans hp.2)
  · refine List.filter_congr fun q hq => ?_
    simp [ownRelations_src h hq]

/-- A relation that is no containment and no control dependence is an instruction's own. -/
theorem mem_ownRelations {q : RelationRecord} (hq : q ∈ relationRecords (S.graph T).records)
    (hk : q.kind ≠ "llvm.contains") (hk' : q.kind ≠ "llvm.control-dependence") :
    ∃ Iis ∈ S.numberedInstructions, q ∈ S.ownRelations S.name Iis := by
  rw [graph_relations] at hq
  rcases List.mem_append.mp hq with hq | hq
  · rcases List.mem_append.mp hq with hq | hq
    · obtain ⟨_, _, rfl⟩ := List.mem_map.mp hq
      exact absurd rfl hk
    · obtain ⟨u, hu, hq⟩ := List.mem_flatMap.mp hq
      rcases List.mem_append.mp hq with hq | hq
      · rw [List.mem_singleton.mp hq] at hk
        exact absurd rfl hk
      · obtain ⟨⟨⟨I, i⟩, successors⟩, hI, hq⟩ := List.mem_flatMap.mp hq
        refine ⟨_, List.mem_flatMap.mpr ⟨u, hu, hI⟩, ?_⟩
        simp only [instructionRelations, List.append_assoc] at hq
        rcases List.mem_append.mp hq with hq | hq
        · rw [List.mem_singleton.mp hq] at hk
          exact absurd rfl hk
        · simp only [ownRelations, List.append_assoc]
          exact hq
  · rw [controlRelations, mem_relationRecords] at hq
    obtain ⟨_, _, _, _, he⟩ := controlDependence_relation S T _ hq
    cases he
    exact absurd rfl hk'

/-- The operand relation of an operand. -/
def operandRelation (S : Selected) (κ : Value → String) (I : Instruction) (i : Nat)
    (Vo : Value × Nat) : RelationRecord :=
  relation "llvm.operand" (S.instructionKey i) (κ Vo.1) (some Vo.2) (S.incomingBlock I Vo.2)

theorem callRelations_kind {I : Instruction} {key : String} {q : RelationRecord}
    (hq : q ∈ S.callRelations κ I key) : q.kind = "llvm.calls" := by
  unfold callRelations at hq
  split at hq
  · rw [List.mem_singleton.mp hq]
    rfl
  · exact absurd hq List.not_mem_nil

/-- **The operands of an instruction of the stream**, by position. -/
theorem outgoing_operands {Iis : (Instruction × Nat) × List RelationRecord}
    (h : Iis ∈ S.numberedInstructions) :
    outgoing (S.graph T).records "llvm.operand" (S.instructionKey Iis.1.2) =
      Iis.1.1.operands.zipIdx.map (S.operandRelation S.name Iis.1.1 Iis.1.2) := by
  have hops : (Iis.1.1.operands.zipIdx.flatMap (S.operandRelations S.name Iis.1.1
      (S.instructionKey Iis.1.2))).filter (fun q => q.kind = "llvm.operand") =
      Iis.1.1.operands.zipIdx.map (S.operandRelation S.name Iis.1.1 Iis.1.2) := by
    rw [filter_flatMap_eq, List.map_eq_flatMap]
    refine List.flatMap_congr fun Vo _ => ?_
    obtain ⟨V, o⟩ := Vo
    by_cases hg : isGlobal V = true
    · simp [operandRelations, operandRelation, relation, hg]
    · simp [operandRelations, operandRelation, relation, hg]
  have hsucc : Iis.2.filter (fun q => q.kind = "llvm.operand") = [] := by
    refine List.filter_eq_nil_iff.mpr fun q hq => ?_
    simp [(successors_of_mem h hq).1]
  have hcall : (S.callRelations S.name Iis.1.1 (S.instructionKey Iis.1.2)).filter
      (fun q => q.kind = "llvm.operand") = [] := by
    refine List.filter_eq_nil_iff.mpr fun q hq => ?_
    simp [callRelations_kind hq]
  have hf := filter_relations (S := S) (T := T) (k := "llvm.operand") (by decide) (by decide) h
  rw [ownRelations, List.filter_append, List.filter_append, hops, hsucc, hcall, List.append_nil,
    List.append_nil] at hf
  unfold outgoing
  refine (congrArg _ hf).trans ?_
  exact byOrdinal_zipIdx RelationRecord.ordinal (fun _ => rfl) Iis.1.1.operands 0

/-- The CFG edges that go with an instruction, in the order of their ordinals. -/
theorem successorRows_ordered (S : Selected) (B : Block) (t : Nat) :
    byOrdinal (·.ordinal) (S.successorRows B t) = S.successorRows B t :=
  byOrdinal_zipIdx RelationRecord.ordinal (fun _ => rfl) B.successors 0

theorem outgoing_successors {Iis : (Instruction × Nat) × List RelationRecord}
    (h : Iis ∈ S.numberedInstructions) :
    outgoing (S.graph T).records "llvm.cfg-successor" (S.instructionKey Iis.1.2) = Iis.2 := by
  have hops : (Iis.1.1.operands.zipIdx.flatMap (S.operandRelations S.name Iis.1.1
      (S.instructionKey Iis.1.2))).filter (fun q => q.kind = "llvm.cfg-successor") = [] := by
    rw [filter_flatMap_eq]
    refine flatMap_none fun Vo _ => ?_
    obtain ⟨V, o⟩ := Vo
    by_cases hg : isGlobal V = true
    · simp [operandRelations, relation, hg]
    · simp [operandRelations, relation, hg]
  have hsucc : Iis.2.filter (fun q => q.kind = "llvm.cfg-successor") = Iis.2 := by
    refine List.filter_eq_self.mpr fun q hq => ?_
    simp [(successors_of_mem h hq).1]
  have hcall : (S.callRelations S.name Iis.1.1 (S.instructionKey Iis.1.2)).filter
      (fun q => q.kind = "llvm.cfg-successor") = [] := by
    refine List.filter_eq_nil_iff.mpr fun q hq => ?_
    simp [callRelations_kind hq]
  have hordered : byOrdinal (·.ordinal) Iis.2 = Iis.2 := by
    obtain ⟨⟨B, b, first⟩, _, hI⟩ := List.mem_flatMap.mp h
    rcases List.mem_append.mp hI with hI | hI
    · obtain ⟨_, _, rfl⟩ := List.mem_map.mp hI
      rfl
    · rw [List.mem_singleton.mp hI]
      exact S.successorRows_ordered B _
  have hf := filter_relations (S := S) (T := T) (k := "llvm.cfg-successor") (by decide) (by decide) h
  rw [ownRelations, List.filter_append, List.filter_append, hops, hsucc, hcall, List.append_nil,
    List.nil_append] at hf
  unfold outgoing
  exact (congrArg _ hf).trans hordered

/-! ## 4. The reader finds the outline -/

/-- The blocks as the reader has them. -/
def blockRows (S : Selected) : List EntityRecord :=
  S.function.blocks.zipIdx.map fun Bb => S.blockEntity Bb.1 Bb.2

theorem position_blockKey {b : Nat} (h : b < S.function.blocks.length) :
    position S.blockRows (S.blockKey b) = some b := by
  unfold position blockRows
  rw [List.findIdx?_eq_some_iff_getElem]
  refine ⟨by simpa using h, by simp [blockEntity], fun j hj => ?_⟩
  have hne : S.blockKey j ≠ S.blockKey b := fun he => by
    have := S.blockKey_inj he
    omega
  simpa [blockEntity] using hne

theorem incoming_operand (hphi : S.function.ValidPhis) {I : Instruction} {i : Nat}
    (hI : S.function.instructions[i]? = some I) (Vo : Value × Nat) :
    incomingPosition S.blockRows (S.operandRelation κ I i Vo) = I.incoming.bind (·[Vo.2]?) := by
  cases hb : I.incoming.bind (·[Vo.2]?) with
  | none => simp [incomingPosition, operandRelation, relation, incomingBlock, hb]
  | some b =>
    obtain ⟨bs, hbs, hget⟩ := Option.bind_eq_some_iff.mp hb
    have hlt : b < S.function.blocks.length :=
      hphi I (List.mem_of_getElem? hI) bs hbs b (List.mem_of_getElem? hget)
    have hkey : (S.keys (.block b)).getD "" = S.blockKey b := by simp [keys, hlt]
    simp [incomingPosition, operandRelation, relation, incomingBlock, hb, hkey,
      position_blockKey hlt]

/-- The blocks that the CFG edges with an instruction lead to. -/
def successorBlocks (Iis : (Instruction × Nat) × List RelationRecord) (S : Selected) : List Nat :=
  Iis.2.filterMap fun q => position S.blockRows q.dst

/-- **An instruction is read back.** -/
theorem readInstruction_eq (hphi : S.function.ValidPhis)
    {Iis : (Instruction × Nat) × List RelationRecord} (h : Iis ∈ S.numberedInstructions) :
    readInstruction (S.graph T).records S.blockRows (S.instructionEntity Iis.1.1 Iis.1.2) =
      Iis.1.1.outline S.name (successorBlocks Iis S) := by
  have hops := outgoing_operands (T := T) h
  have hsucc := outgoing_successors (T := T) h
  have hkey : (S.instructionEntity Iis.1.1 Iis.1.2).localKey = S.instructionKey Iis.1.2 := rfl
  unfold readInstruction Instruction.outline
  rw [hkey, hops, hsucc, List.map_map, List.map_map]
  have h1 : (RelationRecord.dst ∘ S.operandRelation S.name Iis.1.1 Iis.1.2) =
      fun Vo : Value × Nat => S.name Vo.1 := rfl
  have h2 : (incomingPosition S.blockRows ∘ S.operandRelation S.name Iis.1.1 Iis.1.2) =
      fun Vo : Value × Nat => Iis.1.1.incoming.bind (·[Vo.2]?) :=
    funext fun Vo => incoming_operand hphi (instruction_of_mem h) Vo
  have h3 : (Iis.1.1.operands.zipIdx.map fun Vo : Value × Nat => S.name Vo.1) =
      Iis.1.1.operands.map S.name := by
    have : (fun Vo : Value × Nat => S.name Vo.1) = S.name ∘ Prod.fst := rfl
    rw [this, ← List.map_map, List.zipIdx_map_fst]
  rw [h1, h2, h3]
  rfl

theorem successorBlocks_rows {B : Block} (hB : B ∈ S.function.blocks) (t : Nat)
    (Ii : Instruction × Nat) : successorBlocks (Ii, S.successorRows B t) S = B.successors := by
  have hdst : ∀ zs ∈ B.successors.zipIdx, position S.blockRows
      ((S.keys (.block zs.1)).getD "") = some zs.1 := by
    intro zs hzs
    have hlt : zs.1 < S.function.blocks.length :=
      S.function.successors_lt B hB zs.1
        (List.mem_of_getElem? (List.mem_zipIdx_iff_getElem?.mp hzs))
    have hkey : (S.keys (.block zs.1)).getD "" = S.blockKey zs.1 := by simp [keys, hlt]
    rw [hkey, position_blockKey hlt]
  unfold successorBlocks successorRows
  rw [List.filterMap_map]
  calc List.filterMap _ B.successors.zipIdx
      = B.successors.zipIdx.filterMap (fun zs => some zs.1) :=
        List.filterMap_congr fun zs hzs => hdst zs hzs
    _ = B.successors.zipIdx.map Prod.fst := congrFun List.filterMap_eq_map _
    _ = B.successors := List.zipIdx_map_fst ..

/-- **A block is read back.** -/
theorem readBlock_eq (hphi : S.function.ValidPhis) {u : Block × Nat × Nat} (hu : u ∈ S.numbered) :
    readBlock (S.graph T).records S.blockRows (S.blockEntity u.1 u.2.1) = u.1.outline S.name := by
  obtain ⟨B, b, first⟩ := u
  have hB : B ∈ S.function.blocks := List.mem_of_getElem? (terminator_of_mem_numbered hu).1
  have hread : ∀ Iis ∈ S.blockInstructions (B, b, first),
      readInstruction (S.graph T).records S.blockRows (S.instructionEntity Iis.1.1 Iis.1.2) =
        Iis.1.1.outline S.name (successorBlocks Iis S) :=
    fun Iis hI => readInstruction_eq hphi (List.mem_flatMap.mpr ⟨_, hu, hI⟩)
  have hlist : ((B.instructions.zipIdx first).map fun Ii => S.instructionEntity Ii.1 Ii.2).map
      (readInstruction (S.graph T).records S.blockRows) =
      (S.blockInstructions (B, b, first)).map fun Iis =>
        Iis.1.1.outline S.name (successorBlocks Iis S) := by
    rw [← blockInstructions_map S (B, b, first), List.map_map, List.map_map]
    exact List.map_congr_left hread
  have hbody : ((B.body.zipIdx first).map fun Ii => (Ii, ([] : List RelationRecord))).map
      (fun Iis => Iis.1.1.outline S.name (successorBlocks Iis S)) =
      B.body.map (·.outline S.name []) := by
    have he : ((fun Iis : (Instruction × Nat) × List RelationRecord =>
        Iis.1.1.outline S.name (successorBlocks Iis S)) ∘
        fun Ii : Instruction × Nat => (Ii, ([] : List RelationRecord))) =
        (fun I : Instruction => I.outline S.name []) ∘ Prod.fst := rfl
    rw [List.map_map, he, ← List.map_map, List.zipIdx_map_fst]
  have hkey : (S.blockEntity B b).localKey = S.blockKey b := rfl
  unfold readBlock Block.outline
  rw [hkey, children_instructions hu, hlist, blockInstructions, List.map_append, hbody,
    List.map_cons, List.map_nil, successorBlocks_rows hB]
  rfl

theorem find_function (S : Selected) (T : PostDominatorTree) :
    (entityRecords (S.graph T).records).find? (·.kind = "function") = some S.functionEntity := by
  rw [graph_entities]
  rfl

/-- **The stream determines the function.** -/
theorem readStream_graph (hphi : S.function.ValidPhis) :
    readStream (S.graph T).records = S.function.outline S.name := by
  have hkey : (((entityRecords (S.graph T).records).find? (·.kind = "function")).map
      (·.localKey)).getD "" = S.functionKey := by
    rw [find_function]
    rfl
  have hargs : (S.function.arguments.zipIdx.map fun Ai => S.argumentEntity Ai.1 Ai.2).map
      readArgument = S.function.arguments := by
    have he : (readArgument ∘ fun Ai : ValueText × Nat => S.argumentEntity Ai.1 Ai.2) =
        Prod.fst := rfl
    rw [List.map_map, he, List.zipIdx_map_fst]
  have hblocks : S.blockRows.map (readBlock (S.graph T).records S.blockRows) =
      S.function.blocks.map (·.outline S.name) := by
    have hrows : S.blockRows = S.numbered.map fun u => S.blockEntity u.1 u.2.1 := by
      unfold blockRows
      rw [← numbered_blocks, List.map_map]
      rfl
    have hfst : S.function.blocks.map (·.outline S.name) =
        S.numbered.map fun u => u.1.outline S.name := by
      rw [← numberBlocks_map 0 0 S.function.blocks, List.map_map]
      rfl
    rw [hfst]
    conv_lhs => rw [hrows, List.map_map]
    refine List.map_congr_left fun u hu => ?_
    rw [← hrows]
    exact readBlock_eq hphi hu
  unfold readStream Function.outline
  simp only [hkey, children_arguments, children_blocks, hargs]
  rw [← hblocks]
  rfl

end Selected

/-! ## 5. The checks of a publish -/

/-- The functions of the module have their rows, and no other function owns them. -/
def Catalogued (t : Tables) (artifact : Artifact) (M : Module) : Prop :=
  ∀ f ∈ functionRecords (catalog M), ∃ e ∈ t.entities,
    e.artifactId = artifact.id ∧ e.localKey = functionLocal f.key ∧ e.functionId = none

/-- `UNIQUE(artifact_id, local_key)` of the rows so far. -/
def Tables.pairs (t : Tables) : List (String × String) := t.entities.map (·.localPair)

theorem pairs_functionStatements (artifact : Artifact) (f : FunctionRecord) (t : Tables) :
    (∀ p ∈ t.pairs, p ∈ (effects (f.statements artifact) t).pairs) ∧
      (artifact.id, functionLocal f.key) ∈ (effects (f.statements artifact) t).pairs := by
  have hmark : (effects (f.statements artifact) t).pairs =
      ((Statement.upsertFunction (f.entityRow artifact)).effect t).pairs := by
    have hset : ∀ e : Entity, Entity.localPair { e with materialization :=
        (if f.declaration then .declarationOnly else .catalogOnly : EntityState) } = e.localPair :=
      fun _ => rfl
    exact map_updateWhere hset _
  rw [hmark]
  have hpair : (f.entityRow artifact).localPair = (artifact.id, functionLocal f.key) := rfl
  have hkeep : ∀ n e, (Entity.recatalog n e).localPair = e.localPair := fun _ _ => rfl
  by_cases hl : (lookup Entity.localPair (f.entityRow artifact).localPair t.entities).isSome
  · have he : ((Statement.upsertFunction (f.entityRow artifact)).effect t).pairs = t.pairs := by
      simp only [Tables.pairs, Statement.effect, upsert, if_pos hl]
      exact map_updateWhere (hkeep _) _
    rw [he]
    refine ⟨fun _ hp => hp, ?_⟩
    obtain ⟨e, he⟩ := Option.isSome_iff_exists.mp hl
    rw [← hpair, ← key_of_lookup he]
    exact List.mem_map_of_mem (mem_of_lookup he)
  · have he : ((Statement.upsertFunction (f.entityRow artifact)).effect t).pairs =
        t.pairs ++ [(artifact.id, functionLocal f.key)] := by
      simp only [Tables.pairs, Statement.effect, upsert, if_neg hl, List.map_append]
      rfl
    rw [he]
    exact ⟨fun _ hp => List.mem_append_left _ hp,
      List.mem_append_right _ (List.mem_singleton.mpr rfl)⟩

/-- **A published catalog catalogues its module.** -/
theorem Sound.catalogued {T : Territory} {t : Tables} (h : Sound T t) {artifact : Artifact}
    (hs : t.Stores artifact) (M : Module) (run : String) (module : ModuleRecord) (endedAt : Time) :
    Catalogued (effects (publishCatalogStatements artifact run module (catalog M) endedAt) t)
      artifact M := by
  intro f hf
  have hall : ∀ (fs : List FunctionRecord) (t : Tables),
      (∀ p ∈ t.pairs, p ∈ (effects (fs.flatMap (·.statements artifact)) t).pairs) ∧
      ∀ f ∈ fs, (artifact.id, functionLocal f.key) ∈
        (effects (fs.flatMap (·.statements artifact)) t).pairs := by
    intro fs
    induction fs with
    | nil => exact fun t => ⟨fun _ hp => hp, fun f hf => absurd hf List.not_mem_nil⟩
    | cons f fs ih =>
      intro t
      rw [List.flatMap_cons, effects_append]
      obtain ⟨hkeep, hnew⟩ := pairs_functionStatements artifact f t
      obtain ⟨hkeep', hnew'⟩ := ih (effects (f.statements artifact) t)
      refine ⟨fun p hp => hkeep' p (hkeep p hp), fun g hg => ?_⟩
      rcases List.mem_cons.mp hg with rfl | hg
      · exact hkeep' _ hnew
      · exact hnew' g hg
  have hmem : (artifact.id, functionLocal f.key) ∈
      (effects (publishCatalogStatements artifact run module (catalog M) endedAt) t).pairs := by
    unfold publishCatalogStatements
    rw [effects_append, effects_append]
    exact (hall _ _).2 f hf
  obtain ⟨e, he, hp⟩ := List.mem_map.mp hmem
  obtain ⟨haid, hl⟩ := Prod.mk.inj hp
  obtain ⟨a, _, _, _, hplaced⟩ :=
    (h.publishCatalog hs run module (catalog M) endedAt).entities e he
  exact ⟨e, he, haid, hl, (hplaced.of_functionLocal hl).2⟩

theorem bind_error_of_ok {α β : Type} {x : Except Thrown α} {f : α → Except Thrown β} {a : α}
    {e : Thrown} (hx : x = .ok a) (h : (x >>= f) = .error e) : f a = .error e := by
  rw [hx] at h
  exact h

theorem checkLocals_nodup {declared : List String} {entities : List EntityRecord}
    (hne : ∀ e ∈ entities, e.localKey ≠ "") (hnd : (entities.map (·.localKey)).Nodup)
    (hdis : ∀ e ∈ entities, e.localKey ∉ declared) : checkLocals declared entities = .ok () := by
  induction entities generalizing declared with
  | nil => rfl
  | cons e rest ih =>
    obtain ⟨hnew, hnd⟩ := List.nodup_cons.mp hnd
    have h1 := hne e List.mem_cons_self
    have h2 := hdis e List.mem_cons_self
    simp only [checkLocals, h1, h2, decide_false, Bool.or_self, Bool.false_eq_true, if_false]
    refine ih (fun x hx => hne x (List.mem_cons_of_mem _ hx)) hnd fun x hx hm => ?_
    rcases List.mem_cons.mp hm with he | hm
    · have hx' : x.localKey ∈ rest.map (·.localKey) := List.mem_map_of_mem hx
      rw [he] at hx'
      exact hnew hx'
    · exact hdis x (List.mem_cons_of_mem _ hx) hm

/-- A key of a catalogued function is found after the deletes and upserts of any stream. -/
theorem Catalogued.entityAt {t : Tables} {M : Module} (p : Publish)
    (h : Catalogued t p.target.artifact M) {f : FunctionRecord}
    (hf : f ∈ functionRecords (catalog M)) :
    ∃ e, (effects (replaceStatements p.target p.entities) t).entityAt p.target.artifact.id
      (functionLocal f.key) = some e := by
  obtain ⟨e, he, haid, hl, ho⟩ := h f hf
  have hkept : e ∈ p.keptEntities t := by
    refine mem_deleteWhere.mpr ⟨he, ?_⟩
    simp [ho]
  have hpair : ∀ n y, Entity.localPair (Entity.restructure n y) = Entity.localPair y :=
    fun _ _ => rfl
  have hlook : (lookup Entity.localPair e.localPair (p.keptEntities t)).isSome := by
    cases hlook : lookup Entity.localPair e.localPair (p.keptEntities t) with
    | none => exact absurd rfl (lookup_eq_none_iff.mp hlook e hkept)
    | some x => rfl
  have hrow : ∃ x, lookup Entity.localPair e.localPair (upsertAll Entity.localPair
      Entity.restructure p.rows (p.keptEntities t)) = some x :=
    exists_lookup_upsertAll hpair (Or.inr hlook)
  obtain ⟨x, hx⟩ := hrow
  refine ⟨x, ?_⟩
  rw [p.replaceStatements_effect]
  rw [Entity.localPair, haid, hl] at hx
  exact hx

namespace Selected

variable {S : Selected} {T : PostDominatorTree}

theorem source_declared (S : Selected) (T : PostDominatorTree) {q : SourceRecord}
    (hq : q ∈ sourceRecords (S.graph T).records) :
    q.entity ∈ (entityRecords (S.graph T).records).map (·.localKey) := by
  rw [mem_sourceRecords] at hq
  obtain ⟨e, he, hl, _⟩ := (emitted_of_mem_graph hq fun _ => Record.noConfusion).source_entity rfl
  rw [← hl, graph_entities, List.map_append]
  exact List.mem_append_left _ (List.mem_map_of_mem he)

theorem graph_keys_ne (S : Selected) (T : PostDominatorTree) :
    ∀ e ∈ entityRecords (S.graph T).records, e.localKey ≠ "" := by
  intro e he h
  have hd : S.Declared T e.localKey := Or.inl (List.mem_map_of_mem he)
  have := hd.colon_mem
  rw [h] at this
  exact absurd this List.not_mem_nil

theorem firstError_graph (S : Selected) (T : PostDominatorTree) :
    firstError (S.graph T).records = none := by
  refine List.findSome?_eq_none_iff.mpr fun r hr => ?_
  rw [graph_records] at hr
  rcases List.mem_append.mp hr with hr | hr
  · cases structureEmitter_emitted S r hr with
    | _ => rfl
  · obtain ⟨_, _, _, _, rfl⟩ := controlDependence_relation S T r hr
    rfl

theorem graph_checkLocals (S : Selected) (T : PostDominatorTree) :
    checkLocals [] (entityRecords (S.graph T).records) = .ok () :=
  checkLocals_nodup (graph_keys_ne S T) (graph_keys_nodup S T) fun _ _ => List.not_mem_nil

theorem graph_checkRelations (hT : T.Over S.function) :
    checkRelations (relationRecords (S.graph T).records) = .ok () := by
  unfold checkRelations
  rw [if_neg]
  intro hany
  obtain ⟨q, hq, hempty⟩ := List.any_eq_true.mp hany
  obtain ⟨hk, hsrc, hdst⟩ := relation_declared hT hq
  have hne : ∀ {k : String}, S.Declared T k → k ≠ "" := by
    rintro k hd rfl
    exact absurd hd.colon_mem List.not_mem_nil
  simp [hk, hne hsrc, hne hdst] at hempty

/-- **On a catalogued artifact every endpoint** is a key of the stream, or the database knows it. -/
theorem graph_resolved (hT : T.Over S.function) {target : Target} {run owner : String}
    {draw : PublishDraw} {t : Tables} (hcat : Catalogued t target.artifact S.module) :
    (Publish.of target run owner draw (S.graph T).records).Resolved t := by
  have hids : ∀ {l}, S.Declared T l →
      (l ∈ (entityRecords (S.graph T).records).map (·.localKey) ∨
        l ∈ (relationRecords (S.graph T).records).flatMap fun q => [q.src, q.dst]) →
      ∃ i, (Publish.of target run owner draw (S.graph T).records).localIds
        ((Publish.of target run owner draw (S.graph T).records).replaced t) l = some i := by
    intro l hd hl
    unfold Publish.localIds localToId
    by_cases hm : l ∈ (entityRecords (S.graph T).records).map (·.localKey)
    · exact ⟨_, if_pos hm⟩
    · have hr := hl.resolve_left hm
      obtain ⟨f, hf, rfl⟩ := hd.resolve_left hm
      obtain ⟨x, hx⟩ := Catalogued.entityAt
        (Publish.of target run owner draw (S.graph T).records) hcat hf
      have hm' : functionLocal f.key ∉ (Publish.of target run owner draw
          (S.graph T).records).entities.map (·.localKey) := hm
      have hr' : functionLocal f.key ∈ (Publish.of target run owner draw
          (S.graph T).records).relations.flatMap fun q => [q.src, q.dst] := hr
      refine ⟨x.id, ?_⟩
      rw [if_neg hm', if_pos hr']
      exact congrArg (Option.map fun e : Entity => e.id) hx
  refine ⟨fun q hq => ?_, fun q hq => ?_⟩
  · obtain ⟨_, hsrc, hdst⟩ := relation_declared hT hq
    exact ⟨hids hsrc (Or.inr (List.mem_flatMap.mpr ⟨q, hq, by simp⟩)),
      hids hdst (Or.inr (List.mem_flatMap.mpr ⟨q, hq, by simp⟩))⟩
  · have hkey := source_declared S T hq
    exact hids (Or.inl hkey) (Or.inl hkey)

/-- **On a catalogued artifact no check rejects the stream.** -/
theorem checks_ok (hT : T.Over S.function) {io : Faults} {target : Target} {run owner : String}
    {draw : PublishDraw} {db : Database} {e : Thrown}
    (hcat : Catalogued db.toTables target.artifact S.module)
    (h : (Publish.of target run owner draw (S.graph T).records).exec io db = .error e) :
    e.FromDatabase := by
  unfold Publish.exec at h
  replace h := bind_error_of_ok (graph_checkLocals S T) h
  replace h := bind_error_of_ok (graph_checkRelations hT) h
  rcases bind_eq_error h with h | ⟨db₁, hexec, h⟩
  · exact execAll_error_database h
  have hr : (Publish.of target run owner draw (S.graph T).records).Resolved db.toTables :=
    graph_resolved hT hcat
  have ht : db₁.toTables = (Publish.of target run owner draw (S.graph T).records).replaced
      db.toTables := execAll_ok hexec
  rw [ht] at h
  replace h := bind_error_of_ok hr.relations_ok h
  replace h := bind_error_of_ok hr.sources_ok h
  exact transaction_error_database h

theorem graph_scoped (S : Selected) (T : PostDominatorTree) {e : EntityRecord}
    (he : e ∈ entityRecords (S.graph T).records) : e.Scoped (Irez.functionKey S.ordinal) := by
  cases emitted_of_mem_graph (mem_entityRecords.mp he) fun _ => Record.noConfusion with
  | entity hb => exact bodyEntities_scoped S e hb
  | operand V c => exact operandEntity_scoped S V c

/-- **And nothing else does**: the publish of a claimed function commits where no statement
    fails for a reason outside the database. -/
theorem publish_commits (hT : T.Over S.function) {db db₁ : Database}
    (hreach : Reachable AdapterAnswers db) {handle : String} {refresh : Bool} {target : Target}
    (hent : Irez.enter db.toTables handle refresh = .ok (.analyse target)) {io : Faults}
    {d : ClaimDraw} (hclaim : claimFunction io d target db = .ok db₁)
    (hcat : Catalogued db.toTables target.artifact S.module) (draw : PublishDraw) :
    ∃ db', (Publish.of target d.runId d.owner draw (S.graph T).records).exec noFaults db₁ =
      .ok db' := by
  have hi := hreach.identified
  obtain ⟨hst, hnamed, hmem, _⟩ := hi.enter db.constraints hent
  have hst₁ := claimFunction_stores hclaim hst
  have hf₁ := hreach.functionRows.claimFunction hst hclaim
  obtain ⟨run, hrun, h₁⟩ := claimFunction_effects hclaim
  have hentities : db₁.entities = db.entities := by
    rw [h₁]
    rfl
  have hi₁ : Identified db₁.toTables := by
    rw [h₁]
    exact ⟨hi.artifacts, hi.entities, hi.functions⟩
  have hrunId : d.runId ∈ db₁.runIds := by
    rw [h₁, ← hrun]
    exact List.mem_map_of_mem (List.mem_append_right _ (List.mem_singleton.mpr rfl))
  have hcat₁ : Catalogued db₁.toTables target.artifact S.module := by
    intro f hf
    rw [hentities]
    exact hcat f hf
  have hadmissible : (Publish.of target d.runId d.owner draw (S.graph T).records).Admissible
      db₁.toTables := by
    refine ⟨hi₁, hf₁, hst₁, hnamed, ?_, hrunId, fun e he => (graph_scoped S T he).namesKind,
      fun q hq => ?_⟩
    · unfold Tables.entityIds
      rw [hentities]
      exact List.mem_map_of_mem hmem
    · have hq := emitted_of_mem_graph (mem_sourceRecords.mp hq) fun _ => Record.noConfusion
      cases hq with
      | source => rfl
  exact hadmissible.commits (graph_checkLocals S T) (graph_checkRelations hT) (graph_resolved hT hcat₁)

end Selected

/-! ## 6. The stream is faithful and acceptable -/

/-- **The stream of a function is a faithful, acceptable encoding.** Its keys are distinct
    and not empty; every endpoint is a key of the stream or one the catalog gives to a
    function; on a catalogued artifact no check of `materialize` rejects it, and its publish
    commits where no statement fails for a reason outside the database; and it determines the
    function up to the names of its values, which are one for one value only. -/
theorem function_graph_faithful (S : Selected) {T : PostDominatorTree} (hT : T.Over S.function)
    (hphi : S.function.ValidPhis) :
    (∀ pd key, selectFunction key 0 S.module.functions = some (S.ordinal, S.function) →
      pd S.function = T → functionGraph pd S.module key = (S.graph T).records) ∧
    ((entityRecords (S.graph T).records).map (·.localKey)).Nodup ∧
    (∀ e ∈ entityRecords (S.graph T).records, e.localKey ≠ "") ∧
    (∀ q ∈ relationRecords (S.graph T).records, S.Declared T q.src ∧ S.Declared T q.dst) ∧
    (∀ q ∈ sourceRecords (S.graph T).records, S.Declared T q.entity) ∧
    (accept (.ok (S.graph T).records) = .ok (S.graph T).records ∧
      ∀ io target run owner draw (db : Database) e,
        Catalogued db.toTables target.artifact S.module →
        (Publish.of target run owner draw (S.graph T).records).exec io db = .error e →
        e.FromDatabase) ∧
    (∀ (db db₁ : Database) handle refresh target io d draw, Reachable AdapterAnswers db →
      enter db.toTables handle refresh = .ok (.analyse target) →
      claimFunction io d target db = .ok db₁ →
      Catalogued db.toTables target.artifact S.module →
      ∃ db', (Publish.of target d.runId d.owner draw (S.graph T).records).exec noFaults db₁ =
        .ok db') ∧
    (∀ V ∈ S.values, ∀ W ∈ S.values, S.name V = S.name W ↔ V = W) ∧
    readStream (S.graph T).records = S.function.outline S.name := by
  refine ⟨fun pd key hsel hpd => ?_, S.graph_keys_nodup T, S.graph_keys_ne T, fun q hq => ?_,
    fun q hq => ?_, ⟨?_, fun io target run owner draw db e hcat h => ?_⟩,
    fun db db₁ handle refresh target io d draw hreach hent hclaim hcat => ?_,
    fun V hV W hW => ?_, ?_⟩
  · rw [functionGraph_eq hsel, hpd]
  · exact (Selected.relation_declared hT hq).2
  · exact Or.inl (Selected.source_declared S T hq)
  · simp only [accept, Selected.firstError_graph]
  · exact Selected.checks_ok hT hcat h
  · exact Selected.publish_commits hT hreach hent hclaim hcat draw
  · constructor
    · intro h
      have hV' := Selected.named_name hV
      rw [h] at hV'
      exact (Selected.structureEmitter_ledger S).named_inj hV' (Selected.named_name hW)
    · rintro rfl
      rfl
  · exact Selected.readStream_graph hphi

namespace Branch

theorem tree_over {F : Function} (h : F.blocks.length = 3) : tree.Over F where
  contains i hi := by
    rw [h]
    exact of_decide_eq_true hi
  getIDom n i hn := by
    rw [h]
    match n, hn with
    | .block 0, hn =>
      cases hn
      decide
    | .block 1, hn =>
      cases hn
      decide
    | .block 2, hn => cases hn
    | .root, hn => cases hn
    | .block (_ + 3), hn => cases hn

/-- The same blocks; `entry` tests the argument, and `join` merges it with a constant. -/
def merging : Function :=
  { function with
    arguments := [⟨"c", "i1", "i1 %c"⟩]
    blocks := [
      ⟨"entry", [], { instruction "br" with operands := [.argument 0, .block 2, .block 1] },
        .conditionalBranch, [1, 2]⟩,
      ⟨"then", [], { instruction "br" with operands := [.block 2] }, .other, [2]⟩,
      ⟨"join", [{ instruction "phi" with
          operands := [.argument 0, .other 0], incoming := some [0, 1] }],
        { instruction "ret" with operands := [.instruction 2] }, .other, []⟩]
    successors_lt := by decide }

def merged : Module := { module with functions := [merging], others := [⟨"", "i1", "i1 true"⟩] }

theorem merging_validPhis : merging.ValidPhis := by
  have hphis : ∀ J ∈ merging.instructions, ∀ b ∈ J.incoming.getD [], b < 3 := by decide
  intro I hI bs hbs b hb
  have hlt := hphis I hI b
  rw [hbs] at hlt
  exact hlt hb

/-- The stream of that function, read back. -/
theorem function_graph_faithful_merging :
    (readStream (Selected.graph ⟨merged, 0, merging⟩ tree).records).blocks.map
      (fun b => b.instructions.map fun I => (I.operands, I.incoming, I.successors)) =
      [[(["arg:f0:0", "block:f0:2", "block:f0:1"], [none, none, none], [1, 2])],
        [(["block:f0:2"], [none], [2])],
        [(["arg:f0:0", "constant:f0:0"], [some 0, some 1], []), (["inst:f0:2"], [none], [])]] := by
  have h := (function_graph_faithful ⟨merged, 0, merging⟩ (tree_over rfl)
    merging_validPhis).2.2.2.2.2.2.2.2
  rw [h]
  decide +kernel

end Branch

end Irez
