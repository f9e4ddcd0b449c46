/-
  File:      Irez/Llvm.lean
  Subject:   What the adapter reads of LLVM: a parsed module and a post-dominator tree.

  A module is the data the LLVM API hands out, with every printed text already printed.
  The module verifier gives each block one terminator, its last instruction; a block
  keeps it apart from the instructions before it. Instructions and blocks are named by
  their position in the function, so a `Value` stands for the pointer the adapter
  compares.

  The post-dominator tree carries the level LLVM keeps in every node
  (`DomTreeNodeBase::Level`), which falls along `getIDom`; this is what ends a walk
  towards the root.
-/
import Irez.Record

namespace Irez

/-! ## 1. Values and instructions -/

/-- The object a `Value *` in the body of a function points to. Functions and globals
    are counted in the module, arguments, blocks and instructions in the function;
    `other` are the remaining values of the module (constants, aliases, inline assembly). -/
inductive Value where
  | function (i : Nat)
  | argument (i : Nat)
  | block (i : Nat)
  | instruction (i : Nat)
  | global (i : Nat)
  | other (i : Nat)
  deriving DecidableEq, Repr

/-- What is printed of a value: its name (`""` where it has none), type and text. -/
structure ValueText where
  name : String
  type : String
  text : String
  deriving DecidableEq, Repr, Inhabited

/-- One level of a `DILocation` chain. A scope's file is the path its directory and
    filename make, or `none` where the scope has no file. -/
structure DebugScope where
  file : Option String
  name : String
  deriving DecidableEq, Repr

structure DebugLocation where
  scope : Option DebugScope
  line : Int
  column : Int
  discriminator : Int
  deriving DecidableEq, Repr

/-- The called operand with its pointer casts stripped. -/
inductive Called where
  | function (i : Nat)
  | alias (aliasee : Option Nat)
  | indirect
  deriving DecidableEq, Repr

structure Instruction where
  name : String
  opcode : String
  type : String
  text : String
  attributes : Attributes
  operands : List Value
  /-- The incoming blocks of a phi node. -/
  incoming : Option (List Nat)
  /-- The callee of a call, invoke or callbr. -/
  call : Option Called
  locations : List DebugLocation
  deriving DecidableEq, Repr

/-- The terminators that `successorAttributes` tells apart; a switch has the printed
    values of its cases. -/
inductive TerminatorKind where
  | conditionalBranch
  | switch (cases : List String)
  | other
  deriving DecidableEq, Repr

structure Block where
  name : String
  body : List Instruction
  terminator : Instruction
  terminatorKind : TerminatorKind
  successors : List Nat
  deriving DecidableEq, Repr

/-- The instructions of a block in order. -/
def Block.instructions (b : Block) : List Instruction := b.body ++ [b.terminator]

/-! ## 2. Functions and modules -/

structure Function where
  name : String
  linkage : Nat
  signature : String
  text : String
  /-- The upper-case hexadecimal SHA-256 of `text`. -/
  fingerprint : String
  arguments : List ValueText
  blocks : List Block
  successors_lt : ∀ B ∈ blocks, ∀ s ∈ B.successors, s < blocks.length
  deriving DecidableEq, Repr

/-- `F.isDeclaration()`. -/
def Function.isDeclaration (F : Function) : Bool := F.blocks.isEmpty

def Function.instructions (F : Function) : List Instruction :=
  F.blocks.flatMap Block.instructions

structure Module where
  identifier : String
  sourceFile : String
  targetTriple : String
  dataLayout : String
  functions : List Function
  globals : List ValueText
  others : List ValueText
  deriving DecidableEq, Repr

/-! ## 3. The post-dominator tree -/

/-- A node of the tree: a block, or the virtual root, whose block is null. -/
inductive TreeNode where
  | root
  | block (i : Nat)
  deriving DecidableEq, Repr

/-- `Runner->getBlock()`. -/
def TreeNode.getBlock : TreeNode → Option Nat
  | .root => none
  | .block i => some i

structure PostDominatorTree where
  /-- `getNode(&BB)` is not null. -/
  contains : Nat → Bool
  /-- `dominates(&A, &B)`. -/
  dominates : Nat → Nat → Bool
  getIDom : TreeNode → Option TreeNode
  level : TreeNode → Nat
  level_lt : ∀ {n m}, getIDom n = some m → level m < level n

/-- `getNode(&BB)`. -/
def PostDominatorTree.getNode (T : PostDominatorTree) (i : Nat) : Option TreeNode :=
  if T.contains i then some (.block i) else none

end Irez
