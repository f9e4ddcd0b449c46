/-
  File:      Irez/Basis/Program.lean
  Subject:   Programs that can stop between any two operations.

  A program is a tree of operations on its surroundings; what an operation answers, and what
  it does to the state, is a relation given with the state. The process that runs a program
  may be gone at every operation.

  * `Program`, `bind`, `perform`, `fail` -- the programs and their sequencing;
  * `Steps` -- a run, one operation after the other; `eval` -- the run under a function that
    answers, `eval_steps`: it is a run;
  * `Meets` -- the invariant holds before and after every operation, and the end meets the
    postcondition: `Meets.bind` (sequencing), `Meets.mono`, `Meets.steps` (along a run).
-/
import Mathlib.Logic.Relation

namespace Irez.Basis

/-! ## 1. Programs -/

/-- A program over the operations `Op`, which answer with `Ans`; it returns an `α` or throws
    an `ε`. -/
inductive Program (Op : Type) (Ans : Op → Type) (ε α : Type) where
  | done (result : Except ε α)
  | call (op : Op) (next : Ans op → Program Op Ans ε α)

namespace Program

variable {Op : Type} {Ans : Op → Type} {ε α β σ : Type}

def bind : Program Op Ans ε α → (α → Program Op Ans ε β) → Program Op Ans ε β
  | .done (.ok a), f => f a
  | .done (.error e), _ => .done (.error e)
  | .call op next, f => .call op fun answer => (next answer).bind f

instance : Monad (Program Op Ans ε) where
  pure a := .done (.ok a)
  bind := bind

/-- One operation. -/
def perform (op : Op) : Program Op Ans ε (Ans op) := .call op fun answer => .done (.ok answer)

def fail (e : ε) : Program Op Ans ε α := .done (.error e)

/-! ## 2. Runs -/

section Runs

-- what an operation may answer in a state, and the state it leaves
variable (R : σ → (op : Op) → Ans op → σ → Prop)

inductive Step : Program Op Ans ε α × σ → Program Op Ans ε α × σ → Prop
  | mk {op : Op} {next : Ans op → Program Op Ans ε α} {s s' : σ} {answer : Ans op}
      (h : R s op answer s') : Step (.call op next, s) (next answer, s')

def Steps : Program Op Ans ε α × σ → Program Op Ans ε α × σ → Prop := Relation.ReflTransGen (Step R)

/-- The run under a function that answers. -/
def eval (answer : σ → (op : Op) → Ans op × σ) : Program Op Ans ε α → σ → Except ε α × σ
  | .done result, s => (result, s)
  | .call op next, s => (next (answer s op).1).eval answer (answer s op).2

variable {R}

theorem eval_steps {answer : σ → (op : Op) → Ans op × σ}
    (h : ∀ s op, R s op (answer s op).1 (answer s op).2) (p : Program Op Ans ε α) (s : σ) :
    Steps R (p, s) (.done (p.eval answer s).1, (p.eval answer s).2) := by
  induction p generalizing s with
  | done result => exact .refl
  | call op next ih => exact .head ⟨h s op⟩ (ih (answer s op).1 (answer s op).2)

/-! ## 3. Invariants -/

variable (R) in
/-- `inv` holds before and after every operation, and `post` in the end. -/
def Meets (inv : σ → Prop) (post : Except ε α → σ → Prop) : Program Op Ans ε α → σ → Prop
  | .done result, s => inv s ∧ post result s
  | .call op next, s => inv s ∧ ∀ answer s', R s op answer s' → (next answer).Meets inv post s'

variable {inv : σ → Prop} {post : Except ε α → σ → Prop} {p : Program Op Ans ε α} {s : σ}

theorem Meets.start (h : p.Meets R inv post s) : inv s := by
  cases p with
  | done result => exact h.1
  | call op next => exact h.1

theorem Meets.steps (h : p.Meets R inv post s) {q : Program Op Ans ε α} {s' : σ}
    (hrun : Steps R (p, s) (q, s')) : q.Meets R inv post s' := by
  have key : ∀ x, Steps R (p, s) x → x.1.Meets R inv post x.2 := by
    intro x hx
    induction hx with
    | refl => exact h
    | tail _ hstep ih =>
      cases hstep with
      | mk hR => exact ih.2 _ _ hR
  exact key _ hrun

theorem Meets.mono (h : p.Meets R inv post s) {inv' : σ → Prop} {post' : Except ε α → σ → Prop}
    (hinv : ∀ s, inv s → inv' s) (hpost : ∀ r s, inv s → post r s → post' r s) :
    p.Meets R inv' post' s := by
  induction p generalizing s with
  | done result => exact ⟨hinv s h.1, hpost result s h.1 h.2⟩
  | call op next ih => exact ⟨hinv s h.1, fun answer s' hR => ih answer (h.2 answer s' hR)⟩

/-- **Sequencing**: what the first program returns with must do for the second. -/
theorem Meets.bind (h : p.Meets R inv post s) {f : α → Program Op Ans ε β}
    {post' : Except ε β → σ → Prop}
    (hok : ∀ a s, inv s → post (.ok a) s → (f a).Meets R inv post' s)
    (herror : ∀ e s, inv s → post (.error e) s → post' (.error e) s) :
    (p >>= f).Meets R inv post' s := by
  induction p generalizing s with
  | done result =>
    cases result with
    | ok a => exact hok a s h.1 h.2
    | error e => exact ⟨h.1, herror e s h.1 h.2⟩
  | call op next ih => exact ⟨h.1, fun answer s' hR => ih answer (h.2 answer s' hR)⟩

theorem meets_pure {a : α} (hinv : inv s) (hpost : post (.ok a) s) :
    (pure a : Program Op Ans ε α).Meets R inv post s := ⟨hinv, hpost⟩

theorem meets_fail {e : ε} (hinv : inv s) (hpost : post (.error e) s) :
    (fail e : Program Op Ans ε α).Meets R inv post s := ⟨hinv, hpost⟩

/-- One operation and what follows it. -/
theorem meets_perform {op : Op} {f : Ans op → Program Op Ans ε α} (hinv : inv s)
    (h : ∀ answer s', R s op answer s' → (f answer).Meets R inv post s') :
    (perform op >>= f).Meets R inv post s := ⟨hinv, h⟩

end Runs

end Program

end Irez.Basis
