/-
  File:      Irez/Adapter.lean
  Subject:   The adapter (adapter.cpp): `catalog` and `function_graph`, from a parsed
             module to the stream of records.

  An `Emitter` holds what the source keeps while it emits: the records so far, the keys
  handed out by `ensureOperand` (`ExtraKeys`) and the next constant's number. Each part
  of `function_graph` is a function on emitters, composed in the order of the source.
  `DenseMap<const Value *, std::string> Keys` is `Selected.keys`: it is filled from the
  module and the selected function before `ensureOperand` is first called.
-/
import Irez.Llvm
import Irez.Contract

namespace Irez

/-! ## 1. The emitter -/

structure Emitter where
  records : List Record
  extraKeys : List (Value × String)
  constantOrdinal : Nat
  deriving DecidableEq, Repr

namespace Emitter

def emit (E : Emitter) (r : Record) : Emitter := { E with records := E.records ++ [r] }

def emitAll (E : Emitter) (rs : List Record) : Emitter := rs.foldl emit E

theorem emitAll_eq (E : Emitter) (rs : List Record) :
    E.emitAll rs = { E with records := E.records ++ rs } := by
  induction rs generalizing E with
  | nil => simp [emitAll]
  | cons r rs ih =>
    show (E.emit r).emitAll rs = _
    rw [ih]
    simp [emit]

end Emitter

/-! ## 2. Keys and attributes -/

def functionKey (ordinal : Nat) : String := "f" ++ toString ordinal

def capabilities : List CapabilityEntry :=
  [⟨"entity_index", "supported", some "exact"⟩, ⟨"operand_graph", "supported", some "exact"⟩,
    ⟨"cfg", "supported", some "exact"⟩, ⟨"control_dependence", "supported", some "exact"⟩,
    ⟨"source_mapping", "supported", some "partial"⟩, ⟨"direct_calls", "supported", some "exact"⟩,
    ⟨"indirect_calls", "partial", some "conservative"⟩,
    ⟨"memory_dependencies", "unsupported", none⟩, ⟨"path_conditions", "unsupported", none⟩,
    ⟨"runtime_events", "unsupported", none⟩]

/-- `successorAttributes`. -/
def successorAttributes (kind : TerminatorKind) (ordinal : Nat) : Attributes :=
  match kind with
  | .conditionalBranch => [("condition_value", .bool (ordinal = 0))]
  | .switch cases =>
    if ordinal = 0 then [("switch_default", .bool true)]
    else [("switch_case", .str (cases.getD (ordinal - 1) ""))]
  | .other => []

/-- `std::replace(File.begin(), File.end(), '\\', '/')`. -/
def forwardSlashes (file : String) : String :=
  String.ofList (file.toList.map fun c => if c = '\\' then '/' else c)

/-- The record of one level of a location (`emitSource`). -/
def sourceRecord (localKey : String) (location : DebugLocation) (depth : Nat) : Record :=
  .source {
    entity := localKey
    file := forwardSlashes ((location.scope.bind (·.file)).getD "")
    line := some location.line
    column := some location.column
    discriminator := some location.discriminator
    inlineDepth := some depth
    scope := (location.scope.map (·.name)).getD "" }

def emitSource (I : Instruction) (localKey : String) (E : Emitter) : Emitter :=
  E.emitAll (I.locations.zipIdx.map fun (location, depth) => sourceRecord localKey location depth)

def moduleHeader (M : Module) : List Record :=
  [.capabilities capabilities,
    .module ⟨M.identifier, M.sourceFile, M.targetTriple, M.dataLayout⟩]

/-! ## 3. The catalog -/

def functionRecord (F : Function) (ordinal : Nat) : Record :=
  .function {
    key := functionKey ordinal
    ordinal := ordinal
    name := F.name
    declaration := F.isDeclaration
    linkage := toString F.linkage
    signature := F.signature
    bodyFingerprint := if F.isDeclaration then "" else F.fingerprint }

/-- The catalog of a parsed module. -/
def catalog (M : Module) : List Record :=
  moduleHeader M ++ M.functions.zipIdx.map fun (F, ordinal) => functionRecord F ordinal

/-! ## 4. Selecting the function -/

/-- The selection loop: the first function whose key or whose name is the text asked for. -/
def selectFunction (key : String) (current : Nat) : List Function → Option (Nat × Function)
  | [] => none
  | F :: rest =>
    if functionKey current = key || F.name = key then some (current, F)
    else selectFunction key (current + 1) rest

/-- The selected function in its module. -/
structure Selected where
  module : Module
  ordinal : Nat
  function : Function

namespace Selected

variable (S : Selected)

def functionKey : String := "function:" ++ Irez.functionKey S.ordinal

def argumentKey (i : Nat) : String := "arg:" ++ Irez.functionKey S.ordinal ++ ":" ++ toString i

def blockKey (i : Nat) : String := "block:" ++ Irez.functionKey S.ordinal ++ ":" ++ toString i

def instructionKey (i : Nat) : String := "inst:" ++ Irez.functionKey S.ordinal ++ ":" ++ toString i

def constantKey (i : Nat) : String := "constant:" ++ Irez.functionKey S.ordinal ++ ":" ++ toString i

/-- `Keys.find(V)`. -/
def keys : Value → Option String
  | .function i =>
    if i < S.module.functions.length then some ("function:" ++ Irez.functionKey i) else none
  | .argument i => if i < S.function.arguments.length then some (S.argumentKey i) else none
  | .block i => if i < S.function.blocks.length then some (S.blockKey i) else none
  | .instruction i =>
    if i < S.function.instructions.length then some (S.instructionKey i) else none
  | .global _ => none
  | .other _ => none

/-- The printed texts of a value without a key. -/
def valueText : Value → ValueText
  | .global i => S.module.globals.getD i default
  | .other i => S.module.others.getD i default
  | _ => default

/-! ## 5. Entities -/

def functionEntity : EntityRecord :=
  { kind := "function", localKey := S.functionKey, ordinal := some S.ordinal,
    name := some S.function.name, opcode := none, llvmType := some S.function.signature,
    exactText := some S.function.text, attributes := [] }

def argumentEntity (A : ValueText) (i : Nat) : EntityRecord :=
  { kind := "argument", localKey := S.argumentKey i, ordinal := some i, name := some A.name,
    opcode := none, llvmType := some A.type, exactText := some A.text, attributes := [] }

def blockEntity (B : Block) (i : Nat) : EntityRecord :=
  { kind := "basic_block", localKey := S.blockKey i, ordinal := some i, name := some B.name,
    opcode := none, llvmType := some "label", exactText := none, attributes := [] }

def instructionEntity (I : Instruction) (i : Nat) : EntityRecord :=
  { kind := "instruction", localKey := S.instructionKey i, ordinal := some i, name := some I.name,
    opcode := some I.opcode, llvmType := some I.type, exactText := some I.text,
    attributes := I.attributes }

end Selected

/-- The blocks of a function with the number of each and the number of its first
    instruction (`BlockOrdinal`, `InstructionOrdinal`). -/
def numberBlocks (block instruction : Nat) : List Block → List (Block × Nat × Nat)
  | [] => []
  | B :: rest =>
    (B, block, instruction) ::
      numberBlocks (block + 1) (instruction + B.instructions.length) rest

namespace Selected

variable (S : Selected)

def numbered : List (Block × Nat × Nat) := numberBlocks 0 0 S.function.blocks

def blockEntities : Block × Nat × Nat → List EntityRecord
  | (B, b, first) =>
    S.blockEntity B b :: (B.instructions.zipIdx first).map fun (I, i) => S.instructionEntity I i

/-- The entities of the function itself, its arguments, blocks and instructions. -/
def bodyEntities : List EntityRecord :=
  S.functionEntity :: (S.function.arguments.zipIdx.map fun (A, i) => S.argumentEntity A i) ++
    S.numbered.flatMap S.blockEntities

/-! ## 6. Operands -/

/-- The key and kind `ensureOperand` gives to a value it sees for the first time. -/
def freshKey (V : Value) (constantOrdinal : Nat) : String × String :=
  match V with
  | .global i => ("global:g" ++ toString i, "global")
  | _ => (S.constantKey constantOrdinal, "constant")

def nextConstant (V : Value) (constantOrdinal : Nat) : Nat :=
  match V with
  | .global _ => constantOrdinal
  | _ => constantOrdinal + 1

def operandEntity (V : Value) (key kind : String) : EntityRecord :=
  { kind := kind, localKey := key, ordinal := none, name := some (S.valueText V).name,
    opcode := none, llvmType := some (S.valueText V).type,
    exactText := some (S.valueText V).text, attributes := [] }

def ensureOperand (V : Value) (E : Emitter) : String × Emitter :=
  match S.keys V with
  | some key => (key, E)
  | none =>
    match E.extraKeys.lookup V with
    | some key => (key, E)
    | none =>
      let (key, kind) := S.freshKey V E.constantOrdinal
      (key,
        { records := E.records ++ [.entity (S.operandEntity V key kind)]
          extraKeys := (V, key) :: E.extraKeys
          constantOrdinal := nextConstant V E.constantOrdinal })

/-! ## 7. Relations -/

/-- A relation with modality `must` and precision `exact`. -/
def relation (kind src dst : String) (ordinal : Option Int) (attributes : Attributes) :
    RelationRecord :=
  { kind := kind, src := src, dst := dst, ordinal := ordinal, modality := "must",
    precision := "exact", attributes := attributes }

def contains (src dst : String) : Record := .relation (relation "llvm.contains" src dst none [])

/-- `Attributes["incoming_block"]`: set while the operand has an incoming block. -/
def incomingBlock (I : Instruction) (o : Nat) : Attributes :=
  match I.incoming.bind (·[o]?) with
  | some b => [("incoming_block", .str ((S.keys (.block b)).getD ""))]
  | none => []

def isGlobal : Value → Bool
  | .global _ => true
  | _ => false

/-- One turn of the operand loop. -/
def emitOperand (I : Instruction) (key : String) (E : Emitter) : Value × Nat → Emitter
  | (V, o) =>
    let (dst, E) := S.ensureOperand V E
    let E := E.emit (.relation (relation "llvm.operand" key dst (some o) (S.incomingBlock I o)))
    if isGlobal V then
      let (dst, E) := S.ensureOperand V E
      E.emit (.relation (relation "llvm.references-global" key dst none []))
    else E

def successorRelation (B : Block) (key : String) (successor s : Nat) : Record :=
  .relation (relation "llvm.cfg-successor" key ((S.keys (.block successor)).getD "") (some s)
    (successorAttributes B.terminatorKind s))

/-- The function a call reaches, through an alias too. -/
def callee : Called → Option Nat
  | .function i => some i
  | .alias aliasee => aliasee
  | .indirect => none

def isDeclaration (i : Nat) : Bool := (S.module.functions[i]?).any (·.isDeclaration)

def emitCall (I : Instruction) (key : String) (E : Emitter) : Emitter :=
  match I.call.bind callee with
  | some i =>
    let (target, E) := S.ensureOperand (.function i) E
    E.emit (.relation (relation "llvm.calls" key target none
      [("external", .bool (S.isDeclaration i))]))
  | none => E

/-- One turn of the instruction loop; `successors` holds the CFG edges of a terminator. -/
def emitInstruction (blockKey : String) (successors : List Record) (E : Emitter) :
    Instruction × Nat → Emitter
  | (I, i) =>
    let key := S.instructionKey i
    let E := E.emit (contains blockKey key)
    let E := I.operands.zipIdx.foldl (S.emitOperand I key) E
    let E := E.emitAll successors
    let E := S.emitCall I key E
    emitSource I key E

/-- The CFG edges of a block. -/
def successorRelations (B : Block) (terminator : Nat) : List Record :=
  B.successors.zipIdx.map fun (successor, s) =>
    S.successorRelation B (S.instructionKey terminator) successor s

def emitBlock (E : Emitter) : Block × Nat × Nat → Emitter
  | (B, b, first) =>
    let terminator := first + B.body.length
    let E := E.emit (contains S.functionKey (S.blockKey b))
    let E := (B.body.zipIdx first).foldl (S.emitInstruction (S.blockKey b) []) E
    S.emitInstruction (S.blockKey b) (S.successorRelations B terminator) E (B.terminator, terminator)

/-! ## 8. Control dependence -/

end Selected

/-- The blocks a walk from `Runner` visits before `Stop`. A node's level falls at every
    turn, so the level and one more are turns enough (`PostDominatorTree.walk_eq`). -/
def PostDominatorTree.walkFor (T : PostDominatorTree) (stop : Option TreeNode) :
    Nat → Option TreeNode → List TreeNode
  | 0, _ => []
  | _, none => []
  | turns + 1, some n => if some n = stop then [] else n :: T.walkFor stop turns (T.getIDom n)

/-- `while (Runner && Runner != Stop)`. -/
def PostDominatorTree.walk (T : PostDominatorTree) (stop runner : Option TreeNode) :
    List TreeNode :=
  T.walkFor stop (runner.elim 0 fun n => T.level n + 1) runner

namespace Selected

variable (S : Selected)

/-- The relation from the block `y` to the terminator of `B` for its `s`-th successor. -/
def controlRelation (B : Block) (terminator y successor s : Nat) : Record :=
  .relation (relation "llvm.control-dependence" ((S.keys (.block y)).getD "")
    (S.instructionKey terminator) (some s)
    (successorAttributes B.terminatorKind s ++
      [("successor", .str ((S.keys (.block successor)).getD ""))]))

/-- One turn of the successor loop for the block `B` with number `b`. -/
def controlEdge (T : PostDominatorTree) (B : Block) (b terminator : Nat) :
    Nat × Nat → List Record
  | (successor, s) =>
    if T.dominates successor b then []
    else
      let stop := (T.getNode b).bind T.getIDom
      ((T.walk stop (T.getNode successor)).filterMap (·.getBlock)).filterMap fun y =>
        if y ≠ b then some (S.controlRelation B terminator y successor s) else none

def controlDependence (T : PostDominatorTree) : List Record :=
  S.numbered.flatMap fun (B, b, first) =>
    B.successors.zipIdx.flatMap (S.controlEdge T B b (first + B.body.length))

/-! ## 9. The graph of a function -/

/-- Everything after the header. -/
def graph (T : PostDominatorTree) : Emitter :=
  let E : Emitter := ⟨moduleHeader S.module, [], 0⟩
  let E := E.emitAll (S.bodyEntities.map .entity)
  let E := E.emitAll (S.function.arguments.zipIdx.map fun (_, i) =>
    contains S.functionKey (S.argumentKey i))
  let E := S.numbered.foldl S.emitBlock E
  E.emitAll (S.controlDependence T)

end Selected

/-- The part of the LLVM library that the adapter calls: the parser, given the bytes of
    the input file (or none where the file cannot be read), and the post-dominator
    analysis of a function. -/
structure Library (β : Type) where
  parseIRFile : Option β → Except String Module
  postDominators : Function → PostDominatorTree

/-- `function_graph` on a parsed module. -/
def functionGraph (postDominators : Function → PostDominatorTree) (M : Module) (key : String) :
    List Record :=
  match selectFunction key 0 M.functions with
  | none => moduleHeader M ++ [.error "function key not found"]
  | some (ordinal, F) => (Selected.graph ⟨M, ordinal, F⟩ (postDominators F)).records

section Library

variable {β : Type} (L : Library β)

/-- `adapter::catalog` on the bytes of the stored file: a parse error is an error record. -/
def Library.catalog (bytes : Option β) : List Record :=
  match L.parseIRFile bytes with
  | .error message => [.error message]
  | .ok M => Irez.catalog M

/-- `adapter::function_graph` on the bytes of the stored file. -/
def Library.functionGraph (bytes : Option β) (key : String) : List Record :=
  match L.parseIRFile bytes with
  | .error message => [.error message]
  | .ok M => Irez.functionGraph L.postDominators M key

end Library

end Irez
