/-
  File:      Irez/ControlDependence.lean
  Subject:   The control-dependence relations of `function_graph` against their
             definition by post-dominance (docs/PROGRESS.md).

  The source never evaluates the definition: for each edge it walks immediate
  post-dominators from the successor to a stop node.

  * `PostDominatorTree.walk_eq` -- the walk is the source's `while` loop, which ends at
    every node (`walk_ends`);
  * `IsPostDominatorTree` -- the tree LLVM computes for the CFG with its virtual exit;
  * `mem_walk` -- what the walk visits: the post-dominators of the successor below the
    stop node;
  * `mem_controlEdge` -- from it, the relations of one edge.
-/
import Mathlib.Algebra.GroupWithZero.Nat
import Irez.Basis.PostDominance
import Irez.Stream

open Irez.Basis

namespace Irez

/-! ## 1. The walk -/

namespace PostDominatorTree

variable (T : PostDominatorTree)

/-- The turns a walk from `runner` needs. -/
def turns (runner : Option TreeNode) : Nat := runner.elim 0 fun n => T.level n + 1

theorem turns_getIDom (n : TreeNode) : T.turns (T.getIDom n) ≤ T.level n := by
  cases h : T.getIDom n with
  | none => exact Nat.zero_le _
  | some m =>
    show T.level m + 1 ≤ T.level n
    have hlt := T.level_lt h
    omega

theorem walkFor_eq_walk (stop : Option TreeNode) (k : Nat) (runner : Option TreeNode)
    (h : T.turns runner ≤ k) : T.walkFor stop k runner = T.walk stop runner := by
  have key : ∀ j k runner, T.turns runner ≤ j → j ≤ k →
      T.walkFor stop k runner = T.walkFor stop j runner := by
    intro j
    induction j with
    | zero =>
      intro k runner hr _
      cases runner with
      | none =>
        cases k with
        | zero => rfl
        | succ k => rfl
      | some n => exact absurd hr (by simp [turns])
    | succ j ih =>
      intro k runner hr hjk
      obtain ⟨k, rfl⟩ : ∃ k', k = k' + 1 := ⟨k - 1, by omega⟩
      cases runner with
      | none => rfl
      | some n =>
        have hn : T.turns (T.getIDom n) ≤ j := by
          have h1 := T.turns_getIDom n
          have h2 : T.level n + 1 ≤ j + 1 := hr
          omega
        simp only [walkFor]
        rw [ih k (T.getIDom n) hn (by omega)]
  exact key (T.turns runner) k runner (Nat.le_refl _) h

@[simp] theorem walk_none (stop : Option TreeNode) : T.walk stop none = [] := rfl

/-- **The walk is the loop of the source**: there are turns enough at every node. -/
theorem walk_eq (stop : Option TreeNode) (n : TreeNode) :
    T.walk stop (some n) = if some n = stop then [] else n :: T.walk stop (T.getIDom n) := by
  show T.walkFor stop (T.level n + 1) (some n) = _
  rw [walkFor, T.walkFor_eq_walk stop _ _ (T.turns_getIDom n)]

/-- A walk goes down in level. -/
theorem walk_level (stop : Option TreeNode) (runner : Option TreeNode) :
    (T.walk stop runner).Pairwise (fun n m => T.level m < T.level n) ∧
      ∀ n ∈ T.walk stop runner, T.level n < T.turns runner := by
  have key : ∀ k runner, T.turns runner ≤ k →
      (T.walk stop runner).Pairwise (fun n m => T.level m < T.level n) ∧
        ∀ n ∈ T.walk stop runner, T.level n < T.turns runner := by
    intro k
    induction k with
    | zero =>
      intro runner h
      cases runner with
      | none => exact ⟨.nil, fun n hn => absurd hn List.not_mem_nil⟩
      | some n => exact absurd h (by simp [turns])
    | succ k ih =>
      intro runner h
      cases runner with
      | none => exact ⟨.nil, fun n hn => absurd hn List.not_mem_nil⟩
      | some n =>
        have hle := T.turns_getIDom n
        have hn1 : T.turns (some n) = T.level n + 1 := rfl
        obtain ⟨hp, hlt⟩ := ih (T.getIDom n) (by omega)
        rw [walk_eq]
        split
        · exact ⟨.nil, fun m hm => absurd hm List.not_mem_nil⟩
        · refine ⟨List.pairwise_cons.mpr ⟨fun m hm => ?_, hp⟩, fun m hm => ?_⟩
          · have := hlt m hm
            omega
          · rcases List.mem_cons.mp hm with rfl | hm
            · omega
            · have := hlt m hm
              omega
  exact key _ runner (Nat.le_refl _)

/-- `while (Runner && Runner != Stop)`: the nodes of its turns, and `Runner` after it. -/
inductive Ends (stop : Option TreeNode) : Option TreeNode → List TreeNode → Option TreeNode → Prop
  | null : Ends stop none [] none
  | stop : Ends stop stop [] stop
  | turn {n : TreeNode} {ns : List TreeNode} {last : Option TreeNode} (h : some n ≠ stop)
      (hr : Ends stop (T.getIDom n) ns last) : Ends stop (some n) (n :: ns) last

/-- **The loop always ends**, at the stop node or past the root. -/
theorem walk_ends (stop runner : Option TreeNode) :
    ∃ last, T.Ends stop runner (T.walk stop runner) last ∧ (last = stop ∨ last = none) := by
  have key : ∀ k runner, T.turns runner ≤ k →
      ∃ last, T.Ends stop runner (T.walk stop runner) last ∧ (last = stop ∨ last = none) := by
    intro k
    induction k with
    | zero =>
      intro runner h
      cases runner with
      | none => exact ⟨none, .null, Or.inr rfl⟩
      | some n => exact absurd h (by simp [turns])
    | succ k ih =>
      intro runner h
      cases runner with
      | none => exact ⟨none, .null, Or.inr rfl⟩
      | some n =>
        have hle := T.turns_getIDom n
        have hn1 : T.turns (some n) = T.level n + 1 := rfl
        rw [walk_eq]
        split
        · rename_i hs
          exact ⟨stop, hs ▸ .stop, Or.inl rfl⟩
        · rename_i hs
          obtain ⟨last, he, hl⟩ := ih (T.getIDom n) (by omega)
          exact ⟨last, .turn hs he, hl⟩
  exact key _ runner (Nat.le_refl _)

end PostDominatorTree

/-! ## 2. The graph of a function and its tree -/

namespace Function

/-- The `s`-th successor of the block `x`. -/
def successor (F : Function) (x s : Nat) : Option Nat := F.blocks[x]?.bind (·.successors[s]?)

def Edge (F : Function) (x y : Nat) : Prop := ∃ s, F.successor x s = some y

theorem successor_eq_some {F : Function} {x s y : Nat} :
    F.successor x s = some y ↔ ∃ B, F.blocks[x]? = some B ∧ B.successors[s]? = some y := by
  simp [successor, Option.bind_eq_some_iff]

theorem Edge.lt {F : Function} {x y : Nat} (h : F.Edge x y) : x < F.blocks.length ∧
    y < F.blocks.length := by
  obtain ⟨s, hs⟩ := h
  obtain ⟨B, hB, hy⟩ := successor_eq_some.mp hs
  refine ⟨(List.getElem?_eq_some_iff.mp hB).1, ?_⟩
  exact F.successors_lt B (List.mem_of_getElem? hB) y (List.mem_of_getElem? hy)

end Function

/-- **LLVM's tree of the CFG with its virtual exit.** `exits` are the blocks with an edge
    to the virtual exit: those without successors and, where no exit can be reached, the
    blocks the analysis picks, so that every block reaches the exit. -/
structure IsPostDominatorTree (F : Function) (exits : Nat → Prop) (T : PostDominatorTree) :
    Prop where
  exits_of_leaf : ∀ x B, F.blocks[x]? = some B → B.successors = [] → exits x
  reaches : ∀ x < F.blocks.length, Exits F.Edge exits x
  contains : ∀ x < F.blocks.length, T.contains x = true
  dominates : ∀ x < F.blocks.length, ∀ y < F.blocks.length,
    T.dominates y x = true ↔ PostDominates F.Edge exits y x
  root : T.getIDom .root = none
  getIDom : ∀ x < F.blocks.length,
    (∃ d < F.blocks.length, T.getIDom (.block x) = some (.block d) ∧
      Immediate F.Edge exits d x) ∨
    (T.getIDom (.block x) = some .root ∧ ∀ y, y ≠ x → ¬ PostDominates F.Edge exits y x)

/-! ## 3. What the walk visits -/

section Walk

variable {F : Function} {exits : Nat → Prop} {T : PostDominatorTree}

/-- The stop node is above the block `s`. -/
def OnChain (F : Function) (exits : Nat → Prop) (stop : Option TreeNode) (s : Nat) : Prop :=
  match stop with
  | some (.block m) => PostDominates F.Edge exits m s
  | some .root => True
  | none => False

/-- `y` is the stop node or above it. -/
def AtOrAbove (F : Function) (exits : Nat → Prop) (stop : Option TreeNode) (y : Nat) : Prop :=
  match stop with
  | some (.block m) => PostDominates F.Edge exits y m
  | _ => False

/-- **The walk from a block visits its post-dominators below the stop node**, and ends at
    the stop node. The induction is on the level of the block. -/
theorem mem_walk (hT : IsPostDominatorTree F exits T) {stop : Option TreeNode} {s : Nat}
    (hs : s < F.blocks.length) (hstop : OnChain F exits stop s) :
    (∀ y, .block y ∈ T.walk stop (some (.block s)) ↔
      PostDominates F.Edge exits y s ∧ ¬ AtOrAbove F exits stop y) ∧
    T.Ends stop (some (.block s)) (T.walk stop (some (.block s))) stop := by
  obtain ⟨k, hk⟩ : ∃ k, T.level (.block s) = k := ⟨_, rfl⟩
  induction k using Nat.strongRecOn generalizing s with
  | ind k ih =>
    rw [T.walk_eq]
    by_cases heq : some (TreeNode.block s) = stop
    · rw [if_pos heq]
      subst heq
      refine ⟨fun y => ⟨fun h => absurd h List.not_mem_nil, fun h => absurd h.1 h.2⟩, .stop⟩
    · rw [if_neg heq]
      rcases hT.getIDom s hs with ⟨d, hd, hidom, him⟩ | ⟨hidom, hnone⟩
      · have hbelow : ¬ AtOrAbove F exits stop s := by
          intro h
          match stop, hstop, h with
          | some (.block m), hm, h =>
            exact heq (by rw [PostDominates.antisymm (hT.reaches s hs) hm h])
        have hchain : OnChain F exits stop d := by
          match stop, hstop with
          | some (.block m), hm =>
            exact him.closest m (fun e => heq (by rw [e])) hm
          | some .root, _ => trivial
        obtain ⟨hmem, hends⟩ := ih _ (hk ▸ T.level_lt hidom) hd hchain rfl
        rw [hidom]
        refine ⟨fun y => ?_, .turn heq (hidom ▸ hends)⟩
        rw [List.mem_cons, hmem y, him.iff]
        constructor
        · rintro (h | ⟨h1, h2⟩)
          · obtain rfl := TreeNode.block.inj h
            exact ⟨Or.inl rfl, hbelow⟩
          · exact ⟨Or.inr h1, h2⟩
        · rintro ⟨rfl | h1, h2⟩
          · exact Or.inl rfl
          · exact Or.inr ⟨h1, h2⟩
      · have hroot : stop = some .root := by
          match stop, hstop with
          | some (.block m), hm =>
            exact absurd hm (hnone m fun e => heq (by rw [e]))
          | some .root, _ => rfl
        subst hroot
        rw [hidom, T.walk_eq, if_pos rfl]
        refine ⟨fun y => ?_, .turn heq (hidom ▸ .stop)⟩
        rw [List.mem_singleton]
        constructor
        · intro h
          obtain rfl := TreeNode.block.inj h
          exact ⟨PostDominates.refl y, fun h => h⟩
        · rintro ⟨h, _⟩
          by_contra hne
          exact hnone y (fun e => hne (by rw [e])) h

/-- The stop node of a block's edges is above each successor of the block. -/
theorem onChain_of_edge (hT : IsPostDominatorTree F exits T) {x z : Nat} (hz : F.Edge x z) :
    OnChain F exits ((T.getNode x).bind T.getIDom) z := by
  have hx := hz.lt.1
  rw [PostDominatorTree.getNode, if_pos (hT.contains x hx), Option.bind_some]
  rcases hT.getIDom x hx with ⟨d, _, hidom, him⟩ | ⟨hidom, _⟩
  · rw [hidom]
    exact him.postDominates.of_successor him.ne hz
  · rw [hidom]
    trivial

/-- The post-dominators of a block are the block and what is at or above its stop node. -/
theorem postDominates_iff_atOrAbove (hT : IsPostDominatorTree F exits T) {x : Nat}
    (hx : x < F.blocks.length) (y : Nat) :
    PostDominates F.Edge exits y x ↔
      y = x ∨ AtOrAbove F exits ((T.getNode x).bind T.getIDom) y := by
  rw [PostDominatorTree.getNode, if_pos (hT.contains x hx), Option.bind_some]
  rcases hT.getIDom x hx with ⟨d, _, hidom, him⟩ | ⟨hidom, hnone⟩
  · rw [hidom]
    exact him.iff
  · rw [hidom]
    constructor
    · intro h
      by_contra hne
      exact hnone y (fun e => hne (Or.inl e)) h
    · rintro (rfl | h)
      · exact PostDominates.refl y
      · exact h.elim

end Walk

/-! ## 4. The relations of an edge -/

/-- The blocks `controlEdge` writes a relation for, as they come. -/
def PostDominatorTree.controlled (T : PostDominatorTree) (b successor : Nat) : List Nat :=
  if T.dominates successor b then []
  else
    ((T.walk ((T.getNode b).bind T.getIDom) (T.getNode successor)).filterMap (·.getBlock)).filter
      (· ≠ b)

theorem TreeNode.getBlock_eq_some {n : TreeNode} {i : Nat} : n.getBlock = some i ↔ n = .block i := by
  cases n with
  | root => simp [TreeNode.getBlock]
  | block j => simp [TreeNode.getBlock]

section Edge

variable {F : Function} {exits : Nat → Prop} {T : PostDominatorTree}

/-- **The blocks written for an edge** are those that post-dominate the successor and not
    the block itself. -/
theorem mem_controlled (hT : IsPostDominatorTree F exits T) {x z : Nat} (hz : F.Edge x z) (y : Nat) :
    y ∈ T.controlled x z ↔
      PostDominates F.Edge exits y z ∧ ¬ PostDominates F.Edge exits y x := by
  obtain ⟨hx, hzlt⟩ := hz.lt
  unfold PostDominatorTree.controlled
  split
  · rename_i hd
    have hzx := (hT.dominates x hx z hzlt).mp hd
    refine ⟨fun h => absurd h List.not_mem_nil, fun h => absurd (h.1.trans hzx) h.2⟩
  · have hnode : T.getNode z = some (.block z) := by
      rw [PostDominatorTree.getNode, if_pos (hT.contains z hzlt)]
    have hwalk := (mem_walk hT hzlt (onChain_of_edge hT hz)).1 y
    rw [List.mem_filter, List.mem_filterMap, hnode, postDominates_iff_atOrAbove hT hx]
    simp only [TreeNode.getBlock_eq_some, exists_eq_right, decide_eq_true_eq, hwalk, not_or]
    constructor
    · rintro ⟨⟨h1, h2⟩, h3⟩
      exact ⟨h1, h3, h2⟩
    · rintro ⟨h1, h3, h2⟩
      exact ⟨⟨h1, h2⟩, h3⟩

theorem controlled_nodup (T : PostDominatorTree) (x z : Nat) : (T.controlled x z).Nodup := by
  unfold PostDominatorTree.controlled
  split
  · exact List.nodup_nil
  · refine List.Nodup.filter _ ?_
    refine List.Pairwise.filterMap _ (fun n m hlt i hi j hj => ?_) (T.walk_level _ _).1
    intro hij
    subst hij
    rw [TreeNode.getBlock_eq_some] at hi hj
    subst hi hj
    exact absurd hlt (Nat.lt_irrefl _)

end Edge

/-! ## 5. The numbers of blocks and terminators -/

namespace Function

/-- The number of the first instruction of the block `x`. -/
def firstInstruction (F : Function) (x : Nat) : Nat :=
  ((F.blocks.take x).map (·.instructions.length)).sum

/-- The number of the terminator of the block `x`. -/
def terminatorNumber (F : Function) (x : Nat) : Nat :=
  F.firstInstruction x + (F.blocks[x]?.elim 0 (·.body.length))

theorem firstInstruction_succ {F : Function} {x : Nat} {B : Block} (h : F.blocks[x]? = some B) :
    F.firstInstruction (x + 1) = F.terminatorNumber x + 1 := by
  obtain ⟨hx, rfl⟩ := List.getElem?_eq_some_iff.mp h
  unfold firstInstruction terminatorNumber firstInstruction
  rw [List.take_succ_eq_append_getElem hx, List.map_append, List.sum_append, h]
  simp [Block.instructions]
  omega

theorem firstInstruction_mono (F : Function) {x y : Nat} (h : x ≤ y) :
    F.firstInstruction x ≤ F.firstInstruction y := by
  obtain ⟨d, rfl⟩ := Nat.exists_eq_add_of_le h
  unfold firstInstruction
  rw [List.take_add, List.map_append, List.sum_append]
  exact Nat.le_add_right _ _

/-- No two blocks have one terminator. -/
theorem terminatorNumber_inj {F : Function} {x y : Nat} (hx : x < F.blocks.length)
    (hy : y < F.blocks.length) (h : F.terminatorNumber x = F.terminatorNumber y) : x = y := by
  have key : ∀ {x y : Nat}, x < F.blocks.length → x < y →
      F.terminatorNumber x < F.terminatorNumber y := by
    intro x y hx hlt
    have h1 := firstInstruction_succ (List.getElem?_eq_getElem hx)
    have h2 := F.firstInstruction_mono (Nat.succ_le_of_lt hlt)
    have h3 : F.firstInstruction y ≤ F.terminatorNumber y := Nat.le_add_right _ _
    rw [Nat.succ_eq_add_one] at h2
    omega
  rcases Nat.lt_trichotomy x y with hlt | rfl | hlt
  · have := key hx hlt
    omega
  · rfl
  · have := key hy hlt
    omega

end Function

theorem mem_numberBlocks {b i : Nat} {Bs : List Block} {B : Block} {k f : Nat} :
    (B, k, f) ∈ numberBlocks b i Bs ↔ ∃ j, Bs[j]? = some B ∧ k = b + j ∧
      f = i + ((Bs.take j).map (·.instructions.length)).sum := by
  induction Bs generalizing b i with
  | nil => simp [numberBlocks]
  | cons A Bs ih =>
    rw [numberBlocks, List.mem_cons, ih]
    constructor
    · rintro (h | ⟨j, hj, rfl, rfl⟩)
      · cases h
        exact ⟨0, rfl, rfl, rfl⟩
      · exact ⟨j + 1, hj, by omega, by simp [List.take_succ_cons]; omega⟩
    · rintro ⟨j, hj, rfl, rfl⟩
      cases j with
      | zero =>
        cases hj
        exact Or.inl rfl
      | succ j => exact Or.inr ⟨j, hj, by omega, by simp [List.take_succ_cons]; omega⟩

theorem numberBlocks_pairwise (b i : Nat) (Bs : List Block) :
    (numberBlocks b i Bs).Pairwise (fun u v => u.2.1 ≠ v.2.1) := by
  induction Bs generalizing b i with
  | nil => exact .nil
  | cons A Bs ih =>
    refine List.pairwise_cons.mpr ⟨fun v hv => ?_, ih (b + 1) _⟩
    obtain ⟨B, k, f⟩ := v
    obtain ⟨j, _, rfl, _⟩ := mem_numberBlocks.mp hv
    show b ≠ b + 1 + j
    omega

/-! ## 6. The relations of the function -/

/-- `Y` post-dominates the `s`-th successor of `X` and does not post-dominate `X`. -/
def Controls (F : Function) (exits : Nat → Prop) (y x s : Nat) : Prop :=
  ∃ z, F.successor x s = some z ∧ PostDominates F.Edge exits y z ∧
    ¬ PostDominates F.Edge exits y x

namespace Selected

variable (S : Selected)

/-- A control-dependence relation from the block `y` to the terminator of the block `x`
    with ordinal `s`. -/
def isControl (y x s : Nat) : Record → Bool
  | .relation r => r.kind = "llvm.control-dependence" && r.src = S.blockKey y &&
      r.dst = S.instructionKey (S.function.terminatorNumber x) && r.ordinal = some (s : Int)
  | _ => false

variable {S}

theorem isControl_controlRelation {B : Block} {y x s y' x' s' z : Nat}
    (hy' : y' < S.function.blocks.length) (hx : x < S.function.blocks.length)
    (hx' : x' < S.function.blocks.length) :
    S.isControl y x s (S.controlRelation B (S.function.terminatorNumber x') y' z s') = true ↔
      y' = y ∧ x' = x ∧ s' = s := by
  have hkey : S.keys (.block y') = some (S.blockKey y') := by simp [keys, hy']
  simp only [isControl, controlRelation, relation, hkey, Option.getD_some, decide_true,
    Bool.true_and, Bool.and_eq_true, decide_eq_true_eq, Option.some.injEq, Int.natCast_inj]
  constructor
  · rintro ⟨⟨h1, h2⟩, h3⟩
    exact ⟨S.blockKey_inj h1, Function.terminatorNumber_inj hx' hx (S.instructionKey_inj h2), h3⟩
  · rintro ⟨rfl, rfl, rfl⟩
    exact ⟨⟨rfl, rfl⟩, rfl⟩

theorem isControl_of_emitted {r : Record} (h : S.Emitted r) (y x s : Nat) :
    S.isControl y x s r = false := by
  cases h with
  | relation src dst o a hk =>
    have hne : ∀ kind ∈ structuralKinds, kind ≠ "llvm.control-dependence" := by decide
    simp [isControl, relation, hne _ hk]
  | capabilities _ => rfl
  | module _ => rfl
  | entity _ => rfl
  | operand _ _ => rfl
  | source _ _ _ => rfl

theorem controlEdge_eq (T : PostDominatorTree) (B : Block) (b terminator z s : Nat) :
    S.controlEdge T B b terminator (z, s) =
      (T.controlled b z).map fun y => S.controlRelation B terminator y z s := by
  have hfm : ∀ l : List Nat, l.filterMap (fun y =>
      if y ≠ b then some (S.controlRelation B terminator y z s) else none) =
      (l.filter (· ≠ b)).map fun y => S.controlRelation B terminator y z s := by
    intro l
    induction l with
    | nil => rfl
    | cons y l ih =>
      by_cases hy : y = b
      · simpa [hy] using ih
      · simpa [hy] using ih
  simp only [controlEdge, PostDominatorTree.controlled]
  split
  · rfl
  · exact hfm _

theorem mem_controlDependence {T : PostDominatorTree} {r : Record} :
    r ∈ S.controlDependence T ↔ ∃ x s z y B, S.function.blocks[x]? = some B ∧
      B.successors[s]? = some z ∧ y ∈ T.controlled x z ∧
      r = S.controlRelation B (S.function.terminatorNumber x) y z s := by
  unfold controlDependence numbered
  rw [List.mem_flatMap]
  constructor
  · rintro ⟨⟨B, b, first⟩, hB, hr⟩
    obtain ⟨x, hx, hb, rfl⟩ := mem_numberBlocks.mp hB
    obtain rfl : b = x := by omega
    obtain ⟨⟨z, s⟩, hz, hr⟩ := List.mem_flatMap.mp hr
    rw [controlEdge_eq] at hr
    obtain ⟨y, hy, rfl⟩ := List.mem_map.mp hr
    refine ⟨b, s, z, y, B, hx, List.mem_zipIdx_iff_getElem?.mp hz, hy, ?_⟩
    simp [Function.terminatorNumber, Function.firstInstruction, hx]
  · rintro ⟨x, s, z, y, B, hx, hz, hy, rfl⟩
    refine ⟨(B, x, S.function.firstInstruction x), ?_, ?_⟩
    · exact mem_numberBlocks.mpr ⟨x, hx, by omega, by simp [Function.firstInstruction]⟩
    · refine List.mem_flatMap.mpr ⟨(z, s), List.mem_zipIdx_iff_getElem?.mpr hz, ?_⟩
      rw [controlEdge_eq]
      refine List.mem_map.mpr ⟨y, hy, ?_⟩
      simp [Function.terminatorNumber, hx]

/-- The terminator of a numbered block has the block's terminator number. -/
theorem terminator_of_mem_numbered {B : Block} {b first : Nat} (h : (B, b, first) ∈ S.numbered) :
    S.function.blocks[b]? = some B ∧
      first + B.body.length = S.function.terminatorNumber b := by
  obtain ⟨j, hj, hb, rfl⟩ := mem_numberBlocks.mp h
  obtain rfl : b = j := by omega
  exact ⟨hj, by simp [Function.terminatorNumber, Function.firstInstruction, hj]⟩

/-- **No two of the relations are of one block, one terminator and one ordinal**: blocks
    differ in their terminator, the successors of a block in the ordinal, and a walk
    visits no block twice. -/
theorem controlDependence_pairwise {T : PostDominatorTree}
    (hlt : ∀ x z, S.function.Edge x z → ∀ y ∈ T.controlled x z, y < S.function.blocks.length)
    {y x s : Nat} (hx : x < S.function.blocks.length) :
    (S.controlDependence T).Pairwise fun r r' =>
      ¬ (S.isControl y x s r = true ∧ S.isControl y x s r' = true) := by
  have hedge : ∀ {B b first z s' r}, (B, b, first) ∈ S.numbered → (z, s') ∈ B.successors.zipIdx →
      r ∈ S.controlEdge T B b (first + B.body.length) (z, s') → S.isControl y x s r = true →
      ∃ y', y' ∈ T.controlled b z ∧ y' = y ∧ b = x ∧ s' = s := by
    intro B b first z s' r hB hz hr hq
    obtain ⟨hb, hterm⟩ := terminator_of_mem_numbered hB
    rw [hterm, controlEdge_eq] at hr
    obtain ⟨y', hy', rfl⟩ := List.mem_map.mp hr
    have hE : S.function.Edge b z :=
      ⟨s', Function.successor_eq_some.mpr ⟨B, hb, List.mem_zipIdx_iff_getElem?.mp hz⟩⟩
    exact ⟨y', hy', (isControl_controlRelation (hlt b z hE y' hy') hx hE.lt.1).mp hq⟩
  unfold controlDependence
  rw [List.pairwise_flatMap]
  refine ⟨fun ⟨B, b, first⟩ hB => ?_, ?_⟩
  · rw [List.pairwise_flatMap]
    refine ⟨fun ⟨z, s'⟩ hz => ?_, ?_⟩
    · -- one edge: the walk visits a block once
      obtain ⟨hb, hterm⟩ := terminator_of_mem_numbered hB
      have hE : S.function.Edge b z :=
        ⟨s', Function.successor_eq_some.mpr ⟨B, hb, List.mem_zipIdx_iff_getElem?.mp hz⟩⟩
      rw [hterm, controlEdge_eq, List.pairwise_map]
      refine (controlled_nodup T b z).imp_of_mem fun {y₁ y₂} h₁ h₂ hne hq => hne ?_
      have e₁ := (isControl_controlRelation (hlt b z hE y₁ h₁) hx hE.lt.1).mp hq.1
      have e₂ := (isControl_controlRelation (hlt b z hE y₂ h₂) hx hE.lt.1).mp hq.2
      exact e₁.1.trans e₂.1.symm
    · -- the edges of one block differ in the ordinal
      have hnd : B.successors.zipIdx.Pairwise fun u v => u.2 ≠ v.2 := by
        have h := List.nodup_range' (s := 0) (n := B.successors.length)
        rw [← List.zipIdx_map_snd 0 B.successors, List.Nodup, List.pairwise_map] at h
        exact h
      refine hnd.imp_of_mem fun {u v} hu hv hne r hr r' hr' hq => hne ?_
      obtain ⟨_, _, _, _, e₁⟩ := hedge hB hu hr hq.1
      obtain ⟨_, _, _, _, e₂⟩ := hedge hB hv hr' hq.2
      exact e₁.trans e₂.symm
  · -- two blocks differ in the terminator
    refine (numberBlocks_pairwise 0 0 S.function.blocks).imp_of_mem
      fun {u v} hu hv hne r hr r' hr' hq => hne ?_
    obtain ⟨⟨z, s₁⟩, hz, hr⟩ := List.mem_flatMap.mp hr
    obtain ⟨⟨z', s₂⟩, hz', hr'⟩ := List.mem_flatMap.mp hr'
    obtain ⟨_, _, _, e₁, _⟩ := hedge hu hz hr hq.1
    obtain ⟨_, _, _, e₂, _⟩ := hedge hv hz' hr' hq.2
    exact e₁.trans e₂.symm

end Selected

/-- A predicate that holds of no two entries counts at most one. -/
theorem countP_le_one_of_pairwise {α : Type} {p : α → Bool} {l : List α}
    (h : l.Pairwise fun a b => ¬ (p a = true ∧ p b = true)) : l.countP p ≤ 1 := by
  induction l with
  | nil => exact Nat.zero_le _
  | cons a l ih =>
    obtain ⟨ha, hl⟩ := List.pairwise_cons.mp h
    rw [List.countP_cons]
    split
    · rename_i hpa
      have hzero : l.countP p = 0 := List.countP_eq_zero.mpr fun b hb hpb => ha b hb ⟨hpa, hpb⟩
      omega
    · exact ih hl

section Exact

variable {F : Function} {exits : Nat → Prop} {T : PostDominatorTree}

/-- A path stays inside the function. -/
theorem exitPath_lt {x : Nat} {p : List Nat} (h : ExitPath F.Edge exits x p)
    (hx : x < F.blocks.length) : ∀ y ∈ p, y < F.blocks.length := by
  induction h with
  | done _ =>
    intro y hy
    rw [List.mem_singleton.mp hy]
    exact hx
  | step hs _ ih =>
    intro y hy
    rcases List.mem_cons.mp hy with rfl | hy
    · exact hx
    · exact ih hs.lt.2 y hy

theorem controlled_lt (hT : IsPostDominatorTree F exits T) (x z : Nat) (hz : F.Edge x z) :
    ∀ y ∈ T.controlled x z, y < F.blocks.length := by
  intro y hy
  obtain ⟨p, hp⟩ := hT.reaches z hz.lt.2
  exact exitPath_lt hp hz.lt.2 y (((mem_controlled hT hz y).mp hy).1 p hp)

/-- **Control dependence is exact.** In the stream of a selected function there is exactly
    one relation from the block `y` to the terminator of the block `x` with ordinal `s` if
    `y` post-dominates the `s`-th successor of `x` and not `x`, and none otherwise; there
    are no other control-dependence relations; and the walk of every edge ends at its
    stop node. -/
theorem functionGraph_controlDependence {pd : Function → PostDominatorTree} {M : Module}
    {key : String} {n : Nat} (hsel : selectFunction key 0 M.functions = some (n, F))
    (hT : IsPostDominatorTree F exits (pd F)) :
    (∀ y x s, y < F.blocks.length → x < F.blocks.length →
      (Controls F exits y x s →
        (functionGraph pd M key).countP (Selected.isControl ⟨M, n, F⟩ y x s) = 1) ∧
      (¬ Controls F exits y x s →
        (functionGraph pd M key).countP (Selected.isControl ⟨M, n, F⟩ y x s) = 0)) ∧
    (∀ r, .relation r ∈ functionGraph pd M key → r.kind = "llvm.control-dependence" →
      ∃ y x s, Controls F exits y x s ∧ Selected.isControl ⟨M, n, F⟩ y x s (.relation r) = true) ∧
    (∀ x s z, F.successor x s = some z →
      (pd F).Ends (((pd F).getNode x).bind (pd F).getIDom) ((pd F).getNode z)
        ((pd F).walk (((pd F).getNode x).bind (pd F).getIDom) ((pd F).getNode z))
        (((pd F).getNode x).bind (pd F).getIDom)) := by
  rw [functionGraph_eq hsel, Selected.graph_records]
  refine ⟨fun y x s hy hx => ?_, fun r hr hk => ?_, fun x s z hz => ?_⟩
  · rw [List.countP_append]
    have hzero : (Selected.structureEmitter ⟨M, n, F⟩).records.countP
        (Selected.isControl ⟨M, n, F⟩ y x s) = 0 := by
      refine List.countP_eq_zero.mpr fun r hr => ?_
      rw [Selected.isControl_of_emitted (Selected.structureEmitter_emitted _ r hr) y x s]
      exact Bool.noConfusion
    rw [hzero, Nat.zero_add]
    have hle := countP_le_one_of_pairwise
      (Selected.controlDependence_pairwise (S := ⟨M, n, F⟩) (y := y) (s := s)
        (controlled_lt hT) hx)
    have hpos : Controls F exits y x s ↔
        1 ≤ (Selected.controlDependence ⟨M, n, F⟩ (pd F)).countP
          (Selected.isControl ⟨M, n, F⟩ y x s) := by
      rw [List.one_le_countP_iff]
      constructor
      · rintro ⟨z, hz, h1, h2⟩
        obtain ⟨B, hB, hs⟩ := Function.successor_eq_some.mp hz
        refine ⟨_, Selected.mem_controlDependence.mpr
          ⟨x, s, z, y, B, hB, hs, (mem_controlled hT ⟨s, hz⟩ y).mpr ⟨h1, h2⟩, rfl⟩, ?_⟩
        exact (Selected.isControl_controlRelation hy hx hx).mpr ⟨rfl, rfl, rfl⟩
      · rintro ⟨r, hr, hq⟩
        obtain ⟨x', s', z, y', B, hB, hs, hy', rfl⟩ := Selected.mem_controlDependence.mp hr
        have hz : F.successor x' s' = some z := Function.successor_eq_some.mpr ⟨B, hB, hs⟩
        have hE : F.Edge x' z := ⟨s', hz⟩
        obtain ⟨rfl, rfl, rfl⟩ :=
          (Selected.isControl_controlRelation (controlled_lt hT x' z hE y' hy') hx hE.lt.1).mp hq
        obtain ⟨h1, h2⟩ := (mem_controlled hT hE y').mp hy'
        exact ⟨z, hz, h1, h2⟩
    constructor
    · intro h
      have := hpos.mp h
      omega
    · intro h
      have := mt hpos.mpr h
      omega
  · rcases List.mem_append.mp hr with hr | hr
    · have hem := Selected.structureEmitter_emitted _ _ hr
      cases hem with
      | relation src dst o a h =>
        have hne : ∀ kind ∈ Selected.structuralKinds, kind ≠ "llvm.control-dependence" := by decide
        exact absurd hk (hne _ h)
    · obtain ⟨x, s, z, y, B, hB, hs, hy, he⟩ := Selected.mem_controlDependence.mp hr
      have hz : F.successor x s = some z := Function.successor_eq_some.mpr ⟨B, hB, hs⟩
      have hE : F.Edge x z := ⟨s, hz⟩
      obtain ⟨h1, h2⟩ := (mem_controlled hT hE y).mp hy
      refine ⟨y, x, s, ⟨z, hz, h1, h2⟩, ?_⟩
      rw [he]
      exact (Selected.isControl_controlRelation (controlled_lt hT x z hE y hy) hE.lt.1
        hE.lt.1).mpr ⟨rfl, rfl, rfl⟩
  · have hE : F.Edge x z := ⟨s, hz⟩
    have hnode : (pd F).getNode z = some (.block z) := by
      rw [PostDominatorTree.getNode, if_pos (hT.contains z hE.lt.2)]
    rw [hnode]
    exact (mem_walk hT hE.lt.2 (onChain_of_edge hT hE)).2

end Exact

/-! ## 7. A branch over one block -/

namespace Branch

def instruction (opcode : String) : Instruction :=
  { name := "", opcode := opcode, type := "void", text := opcode, attributes := [],
    operands := [], incoming := none, call := none, locations := [] }

/-- `entry` branches to `then` and `join`, `then` goes on to `join`. -/
def function : Function :=
  { name := "main", linkage := 0, signature := "void ()", text := "", fingerprint := "",
    arguments := []
    blocks := [⟨"entry", [], instruction "br", .conditionalBranch, [1, 2]⟩,
      ⟨"then", [], instruction "br", .other, [2]⟩, ⟨"join", [], instruction "ret", .other, []⟩]
    successors_lt := by decide }

def module : Module :=
  { identifier := "m", sourceFile := "m.c", targetTriple := "", dataLayout := "",
    functions := [function], globals := [], others := [] }

def getIDom : TreeNode → Option TreeNode
  | .block 0 => some (.block 2)
  | .block 1 => some (.block 2)
  | .block 2 => some .root
  | _ => none

def level : TreeNode → Nat
  | .root => 0
  | .block 2 => 1
  | .block _ => 2

theorem level_lt : ∀ {n m}, getIDom n = some m → level m < level n
  | .block 0, _, h => by cases h; decide
  | .block 1, _, h => by cases h; decide
  | .block 2, _, h => by cases h; decide
  | .root, _, h => by cases h
  | .block (_ + 3), _, h => by cases h

def tree : PostDominatorTree :=
  ⟨fun i => i < 3, fun a b => a = b || a = 2, getIDom, level, level_lt⟩

theorem postDominates_iff {x : Nat} (hx : x < 3) (y : Nat) :
    PostDominates function.Edge (· = 2) y x ↔ y = x ∨ y = 2 := by
  have hexit : ExitPath function.Edge (· = 2) 2 [2] := .done rfl
  constructor
  · intro h
    match x, hx with
    | 0, _ => simpa using h [0, 2] (.step ⟨1, rfl⟩ hexit)
    | 1, _ => simpa using h [1, 2] (.step ⟨0, rfl⟩ hexit)
    | 2, _ => simpa using h [2] hexit
  · rintro (rfl | rfl)
    · exact PostDominates.refl y
    · intro p hp
      obtain ⟨e, he, rfl⟩ := hp.exit_mem
      exact he

theorem tree_isPostDominatorTree : IsPostDominatorTree function (· = 2) tree where
  exits_of_leaf := by
    intro x B hB hs
    match x, hB with
    | 0, hB =>
      cases hB
      cases hs
    | 1, hB =>
      cases hB
      cases hs
    | 2, _ => rfl
  reaches := by
    intro x hx
    have hexit : ExitPath function.Edge (· = 2) 2 [2] := .done rfl
    match x, hx with
    | 0, _ => exact ⟨_, .step ⟨1, rfl⟩ hexit⟩
    | 1, _ => exact ⟨_, .step ⟨0, rfl⟩ hexit⟩
    | 2, _ => exact ⟨_, hexit⟩
  contains := fun x hx => decide_eq_true hx
  dominates := fun x hx y _ => by simp [tree, postDominates_iff hx]
  root := rfl
  getIDom := by
    intro x hx
    have him : ∀ x < 2, Immediate function.Edge (· = 2) 2 x := by
      intro x hx
      refine ⟨by omega, (postDominates_iff (by omega) 2).mpr (Or.inr rfl), fun y hne hy => ?_⟩
      rcases (postDominates_iff (by omega) y).mp hy with rfl | rfl
      · exact absurd rfl hne
      · exact PostDominates.refl 2
    match x, hx with
    | 0, _ => exact Or.inl ⟨2, by decide, rfl, him 0 (by decide)⟩
    | 1, _ => exact Or.inl ⟨2, by decide, rfl, him 1 (by decide)⟩
    | 2, hx =>
      refine Or.inr ⟨rfl, fun y hne hy => ?_⟩
      rcases (postDominates_iff hx y).mp hy with rfl | rfl
      · exact hne rfl
      · exact hne rfl

/-- `then` is controlled by the first edge of `entry`, by one relation. -/
theorem then_controlled :
    (functionGraph (fun _ => tree) module "f0").countP
      (Selected.isControl ⟨module, 0, function⟩ 1 0 0) = 1 := by
  refine ((functionGraph_controlDependence rfl
    tree_isPostDominatorTree).1 1 0 0 (by decide) (by decide)).1 ⟨1, rfl, ?_, ?_⟩
  · exact PostDominates.refl 1
  · intro h
    rcases (postDominates_iff (by decide) 1).mp h with h | h
    · exact absurd h (by decide)
    · exact absurd h (by decide)

end Branch

end Irez
