/-
  File:      Irez/Basis/PostDominance.lean
  Subject:   Post-dominance in a graph with exits.

  A graph is its successor relation with the set of vertices that have an edge to the
  virtual exit. `y` post-dominates `x` if every path from `x` to an exit runs through
  `y`; the relation is reflexive.

  * `PostDominates.trans`, `PostDominates.antisymm` -- an order on the vertices that
    reach an exit;
  * `PostDominates.of_successor` -- a strict post-dominator of a vertex post-dominates
    each of its successors;
  * `Immediate` -- the closest strict post-dominator, and how it splits the others.
-/
import Mathlib.Data.List.Basic

namespace Irez.Basis

variable {α : Type} (succ : α → α → Prop) (exit : α → Prop)

/-! ## 1. Paths to an exit -/

/-- The path `p` runs from a vertex to an exit. -/
inductive ExitPath : α → List α → Prop where
  | done {x : α} (h : exit x) : ExitPath x [x]
  | step {x y : α} {p : List α} (h : succ x y) (hp : ExitPath y p) : ExitPath x (x :: p)

variable {succ exit}

/-- The part of a path from one of its vertices on is a path, shorter unless it starts at
    the first vertex. -/
theorem ExitPath.suffix {x y : α} {p : List α} (h : ExitPath succ exit x p) (hy : y ∈ p) :
    ∃ q, ExitPath succ exit y q ∧ (∀ z ∈ q, z ∈ p) ∧
      (q.length < p.length ∨ (y = x ∧ q.length = p.length)) := by
  induction h with
  | @done x hx =>
    obtain rfl := List.mem_singleton.mp hy
    exact ⟨[y], .done hx, fun z hz => hz, Or.inr ⟨rfl, rfl⟩⟩
  | @step x s p hs hp ih =>
    rcases List.mem_cons.mp hy with rfl | hy
    · exact ⟨y :: p, .step hs hp, fun z hz => hz, Or.inr ⟨rfl, rfl⟩⟩
    · obtain ⟨q, hq, hsub, hlen⟩ := ih hy
      refine ⟨q, hq, fun z hz => List.mem_cons_of_mem _ (hsub z hz), Or.inl ?_⟩
      rw [List.length_cons]
      rcases hlen with hlt | ⟨_, heq⟩
      · omega
      · omega

theorem ExitPath.head_mem {x : α} {p : List α} (h : ExitPath succ exit x p) : x ∈ p := by
  cases h with
  | done hx => exact List.mem_singleton.mpr rfl
  | step hs hp => exact List.mem_cons_self

theorem ExitPath.exit_mem {x : α} {p : List α} (h : ExitPath succ exit x p) : ∃ e ∈ p, exit e := by
  induction h with
  | done hx => exact ⟨_, List.mem_singleton.mpr rfl, hx⟩
  | step _ _ ih =>
    obtain ⟨e, he, hexit⟩ := ih
    exact ⟨e, List.mem_cons_of_mem _ he, hexit⟩

variable (succ exit)

/-! ## 2. The order -/

/-- Every path from `x` to an exit runs through `y`. -/
def PostDominates (y x : α) : Prop := ∀ p, ExitPath succ exit x p → y ∈ p

/-- Some path runs from `x` to an exit. -/
def Exits (x : α) : Prop := ∃ p, ExitPath succ exit x p

variable {succ exit}

theorem PostDominates.refl (x : α) : PostDominates succ exit x x :=
  fun _ hp => hp.head_mem

theorem PostDominates.trans {x y z : α} (hzy : PostDominates succ exit z y)
    (hyx : PostDominates succ exit y x) : PostDominates succ exit z x := by
  intro p hp
  obtain ⟨q, hq, hsub, _⟩ := hp.suffix (hyx p hp)
  exact hsub z (hzy q hq)

/-- **Two vertices that post-dominate each other are one**: a path from `x` would hold a
    shorter one through `y` and back. -/
theorem PostDominates.antisymm {x y : α} (hx : Exits succ exit x)
    (hyx : PostDominates succ exit y x) (hxy : PostDominates succ exit x y) : x = y := by
  by_contra hne
  have key : ∀ n, ∀ p : List α, p.length = n → ¬ ExitPath succ exit x p := by
    intro n
    induction n using Nat.strongRecOn with
    | ind n ih =>
      intro p hn hp
      obtain ⟨q, hq, _, hq_len⟩ := hp.suffix (hyx p hp)
      obtain ⟨r, hr, _, hr_len⟩ := hq.suffix (hxy q hq)
      have hlt : q.length < p.length := by
        rcases hq_len with h | ⟨h, _⟩
        · exact h
        · exact absurd h.symm hne
      have hle : r.length ≤ q.length := by
        rcases hr_len with h | ⟨h, _⟩
        · omega
        · exact absurd h hne
      exact ih r.length (by omega) r rfl hr
  obtain ⟨p, hp⟩ := hx
  exact key p.length p rfl hp

/-- **A strict post-dominator post-dominates every successor.** -/
theorem PostDominates.of_successor {x y s : α} (h : PostDominates succ exit y x) (hne : y ≠ x)
    (hs : succ x s) : PostDominates succ exit y s := by
  intro p hp
  rcases List.mem_cons.mp (h (x :: p) (.step hs hp)) with rfl | hy
  · exact absurd rfl hne
  · exact hy

/-! ## 3. The immediate post-dominator -/

variable (succ exit)

/-- `d` is the strict post-dominator of `x` that every other one post-dominates. -/
structure Immediate (d x : α) : Prop where
  ne : d ≠ x
  postDominates : PostDominates succ exit d x
  closest : ∀ y, y ≠ x → PostDominates succ exit y x → PostDominates succ exit y d

variable {succ exit}

/-- The post-dominators of a vertex are the vertex and those of its immediate one. -/
theorem Immediate.iff {d x y : α} (h : Immediate succ exit d x) :
    PostDominates succ exit y x ↔ y = x ∨ PostDominates succ exit y d := by
  constructor
  · intro hy
    by_cases hyx : y = x
    · exact Or.inl hyx
    · exact Or.inr (h.closest y hyx hy)
  · rintro (rfl | hy)
    · exact PostDominates.refl y
    · exact hy.trans h.postDominates

end Irez.Basis
