/-
  File:      Irez/ExitCodes.lean
  Subject:   What a failing command line prints (src/cli_main.cpp, docs/CLI.md).

  A failure leaves `run` as an exception, and then `main` prints one JSON object, or through
  `usage_error`, which prints text. Which way it takes can be read off the arguments.

  * `Behind`, `UsageForm` -- the arguments that end in `usage_error`;
  * `dispatch_usage` -- which commands return it, and on what;
  * `run_usage` -- a run ends there exactly on these arguments;
  * `failure_structured` -- a failure is a structured error exactly on all others.
-/
import Irez.Cli

open Irez.Basis.Json (JsonValue)

namespace Irez.Cli

/-! ## 1. Structured errors -/

/-- What the MCP server makes of a finished process. -/
inductive ToolResult where
  | structured (v : JsonValue)
  | success (output : Output)
  | structuredError (v : JsonValue)
  | error (code : Nat) (output : Output)

/-- `run_irez`, behind the process. -/
def runIrez (e : Exit) : ToolResult :=
  if e.code = 0 then
    match e.stdout with
    | .json v => if v.isObject then .structured v else .success e.stdout
    | output => .success output
  else
    -- a text before the object is no JSON
    match e.stderr with
    | .json v => if v.isObject then .structuredError v else .error e.code e.stderr
    | output => .error e.code output

/-- **A structured error**: a code of the contract, and on stderr one JSON object that carries it,
    which the MCP server hands on. -/
def Structured (e : Exit) : Prop :=
  e.code ∈ [2, 3, 4, 5, 6, 7] ∧ ∃ v, e.stderr = .json v ∧ v.isObject = true ∧
    (v.get "error".toList).isSome = true ∧ (v.get "error_kind".toList).isSome = true ∧
    v.get "exit_code".toList = some (number e.code) ∧ runIrez e = .structuredError v

theorem code_listed (t : Throw) : t.code.1 ∈ [2, 3, 4, 5, 6, 7] := by
  cases t <;> simp [Throw.code]

/-- **What is thrown is a structured error.** -/
theorem failed_structured (name : Option Arg) (t : Throw) : Structured (failed name t) := by
  have hcode : t.code.1 ≠ 0 := by
    cases t <;> simp [Throw.code]
  refine ⟨code_listed t, _, rfl, rfl, ?_, ?_, ?_, ?_⟩
  · cases usageLine name t.code.1 <;> rfl
  · cases usageLine name t.code.1 <;> rfl
  · cases usageLine name t.code.1 <;> rfl
  · unfold runIrez failed
    rw [if_neg hcode]
    rfl

theorem usageError_unstructured (message : Arg) : ¬ Structured (usageError message) := by
  intro h
  obtain ⟨_, v, hv, _⟩ := h
  cases hv

/-! ## 2. The arguments that end in `usage_error` -/

/-- **Behind the global options**, with the directory that holds there. -/
inductive Behind : Arg → List Arg → Arg → List Arg → Prop
  | here {dir : Arg} {args : List Arg}
      (h : ∀ a, args.head? = some a → isFor stateDirName a = false) : Behind dir args dir args
  | equals {before dir a : Arg} {args rest : List Arg} (h : withEquals stateDirName a = true)
      (hb : Behind (a.drop (stateDirName.length + 1)) args dir rest) :
      Behind before (a :: args) dir rest
  | pair {before value dir : Arg} {args rest : List Arg} (hb : Behind value args dir rest) :
      Behind before (stateDirName :: value :: args) dir rest

/-- A command that is not known, or whose branch returns `usage_error`. -/
def UsageCommand (name : Arg) (args : List Arg) : Prop :=
  (∀ c ∈ commands, c.name ≠ name) ∨ (name = "init".toList ∧ args = []) ∨
    (name = "ingest".toList ∧ ∃ a rest, args = a :: rest ∧ a ≠ "llvm".toList) ∨
    (name = "materialize".toList ∧ ∃ a rest, args = a :: rest ∧ a ≠ "function".toList)

/-- What stands behind the global options: nothing, an option that is none of them, or such a
    command in a directory that the constructor of the service takes. -/
def UsageRest (absolute : Arg → Bool) (dir : Arg) : List Arg → Prop
  | [] => True
  | a :: rest =>
    (isLong a = true ∧ a ≠ "--help".toList) ∨
      (isLong a = false ∧ absolute dir = true ∧ UsageCommand a rest)

/-- **The arguments that end in `usage_error`.** -/
def UsageForm (absolute : Arg → Bool) (env : Option Arg) (argv : List Arg) : Prop :=
  ∃ dir rest, Behind (env.getD ".irez".toList) (argv.map cString) dir rest ∧
    UsageRest absolute dir rest

/-! ## 3. The commands -/

/-- A parse that does not end in `usage_error`. -/
def Throws {α : Type} (p : Parse α) : Prop := ∀ message, p ≠ .error (.usage message)

theorem throws_ok {α : Type} (a : α) : Throws (.ok a : Parse α) := fun _ h => by cases h

theorem throws_error {α : Type} (message : Arg) : Throws (.error (.error message) : Parse α) :=
  fun _ h => by cases h

theorem Throws.bind {α β : Type} {p : Parse α} {f : α → Parse β} (hp : Throws p)
    (hf : ∀ a, p = .ok a → Throws (f a)) : Throws (p >>= f) := by
  intro message h
  cases p with
  | error e => exact hp message (by simpa [Bind.bind, Except.bind] using h)
  | ok a => exact hf a rfl message h

theorem throws_take (args : List Arg) : Throws (take args) := by
  cases args with
  | nil => exact throws_error _
  | cons a rest => exact throws_ok _

theorem throws_choice (name value : Arg) (choices : List Arg) :
    Throws (requireChoice name value choices) := by
  unfold requireChoice
  by_cases h : value ∈ choices
  · rw [if_pos h]
    exact throws_ok _
  · rw [if_neg h]
    exact throws_error _

theorem throws_nonnegative (name : Arg) (value : Int) :
    Throws (requireNonnegative name value) := by
  unfold requireNonnegative
  by_cases h : value < 0
  · rw [if_pos h]
    exact throws_error _
  · rw [if_neg h]
    exact throws_ok _

theorem throws_end (args : List Arg) : Throws (requireEnd args) := by
  cases args with
  | nil => exact throws_ok _
  | cons a rest => exact throws_error _

/-- The options of a loop. -/
def Opt.Throws {σ : Type} (opt : Opt σ) : Prop := ∀ value s, Cli.Throws (opt.set value s)

theorem text_throws {σ : Type} (name : String) (set : Arg → σ → σ) : (text name set).Throws :=
  fun _ _ => throws_ok _

theorem budget_throws {σ : Type} (name : String) (set : Int → σ → σ) :
    (budget name set).Throws := by
  intro value s message h
  simp only [budget, integer] at h
  cases hn : stoll value with
  | none => simp [hn, Except.map] at h
  | some n => simp [hn, Except.map] at h

/-- The option that is picked is one of the loop's. -/
theorem pick_ok {σ : Type} {opts : List (Opt σ)} {otherwise : Otherwise σ} {a : Arg} {opt : Opt σ}
    (h : pick opts otherwise a = .ok opt) : opt ∈ opts ∨ otherwise = .option opt := by
  unfold pick at h
  cases hfind : opts.find? (fun opt => isFor opt.name a) with
  | some found =>
    rw [hfind] at h
    obtain rfl := Except.ok.inj h
    exact .inl (List.mem_of_find?_eq_some hfind)
  | none =>
    rw [hfind] at h
    cases otherwise with
    | option last =>
      obtain rfl := Except.ok.inj h
      exact .inr rfl
    | unknown command => cases h

/-- **A loop does not end in `usage_error`.** -/
theorem throws_options {σ : Type} {opts : List (Opt σ)} {otherwise : Otherwise σ}
    (hopts : ∀ opt ∈ opts, opt.Throws) (hlast : ∀ opt, otherwise = .option opt → opt.Throws)
    (args : List Arg) (s : σ) : Throws (options opts otherwise args s) := by
  have hpicked : ∀ a opt, pick opts otherwise a = .ok opt → opt.Throws := by
    intro a opt h
    rcases pick_ok h with hmem | hlst
    · exact hopts opt hmem
    · exact hlast opt hlst
  have hpick : ∀ a, Throws (pick opts otherwise a) := by
    intro a message h
    unfold pick at h
    split at h
    · cases h
    · split at h <;> cases h
  fun_induction options opts otherwise args s with
  | case1 s => exact throws_ok _
  | case2 a rest s e h =>
    intro message he
    obtain rfl := Except.error.inj he
    exact hpick a message h
  | case3 a rest s opt h _ e hset =>
    intro message he
    obtain rfl := Except.error.inj he
    exact hpicked a opt h _ _ message hset
  | case4 a rest s opt h _ s' hset ih => exact ih
  | case5 a rest s opt h _ hne => exact throws_error _
  | case6 a s opt h _ _ => exact throws_error _
  | case7 a s opt h _ _ value rest e hset =>
    intro message he
    obtain rfl := Except.error.inj he
    exact hpicked a opt h _ _ message hset
  | case8 a s opt h _ _ value rest s' hset ih => exact ih

/-- A loop with one option. -/
theorem throws_options_one {σ : Type} {opt : Opt σ} (hopt : opt.Throws) (args : List Arg)
    (s : σ) : Throws (options [] (.option opt) args s) := by
  refine throws_options (fun _ h => by cases h) ?_ args s
  intro opt' h
  obtain rfl := Otherwise.option.inj h
  exact hopt

/-- A loop that throws at what it does not know. -/
theorem throws_options_unknown {σ : Type} {opts : List (Opt σ)} (hopts : ∀ opt ∈ opts, opt.Throws)
    (command : Arg) (args : List Arg) (s : σ) :
    Throws (options opts (.unknown command) args s) :=
  throws_options hopts (fun _ h => by cases h) args s

/-! ### One by one -/

theorem throws_handleAlone (call : Arg → ServiceCall) (args : List Arg) :
    Throws (handleAlone call args) := by
  refine (throws_take args).bind fun a _ => ?_
  exact (throws_end a.2).bind fun _ _ => throws_ok _

theorem throws_handleBudget (call : Arg → Int → ServiceCall) (args : List Arg) :
    Throws (handleBudget call args) := by
  refine (throws_take args).bind fun a _ => ?_
  refine (throws_options_one (budget_throws _ _) a.2 100).bind fun n _ => ?_
  exact (throws_nonnegative _ n).bind fun _ _ => throws_ok _

theorem throws_capabilities (args : List Arg) : Throws (capabilities args) :=
  (throws_options_one (text_throws _ _) args none).bind fun _ _ => throws_ok _

theorem throws_functions (args : List Arg) : Throws (functions args) := by
  refine (throws_options ?_ ?_ args _).bind fun _ _ => throws_ok _
  · intro opt h
    rw [List.mem_singleton.mp h]
    exact text_throws _ _
  · intro opt h
    obtain rfl := Otherwise.option.inj h
    exact text_throws _ _

theorem throws_reindex (args : List Arg) : Throws (reindex args) := by
  refine (throws_take args).bind fun a _ => ?_
  refine (throws_options_one (text_throws _ _) a.2 _).bind fun index _ => ?_
  exact (throws_choice _ index _).bind fun _ _ => throws_ok _

theorem throws_backup (args : List Arg) : Throws (backup args) := by
  refine (throws_take args).bind fun a _ => ?_
  exact (throws_end a.2).bind fun _ _ => throws_ok _

theorem throws_show (args : List Arg) : Throws («show» args) := by
  refine (throws_take args).bind fun a _ => ?_
  refine (throws_options_unknown ?_ _ a.2 _).bind fun o _ => ?_
  · intro opt h
    simp only [showOpts, List.mem_cons, List.not_mem_nil, or_false] at h
    rcases h with rfl | rfl | rfl
    · exact text_throws _ _
    · exact text_throws _ _
    · exact budget_throws _ _
  · refine (throws_choice _ o.view _).bind fun _ _ => ?_
    have hkind : Throws (o.kind.elim (pure ())
        fun kind => requireChoice "--kind".toList kind kindChoices) := by
      cases o.kind with
      | none => exact throws_ok _
      | some kind => exact throws_choice _ kind _
    refine hkind.bind fun _ _ => ?_
    exact (throws_nonnegative _ o.budget).bind fun _ _ => throws_ok _

theorem throws_slice (args : List Arg) : Throws (slice args) := by
  refine (throws_take args).bind fun a _ => ?_
  refine (throws_options_unknown ?_ _ a.2 _).bind fun o _ => ?_
  · intro opt h
    simp only [sliceOpts, List.mem_cons, List.not_mem_nil, or_false] at h
    rcases h with rfl | rfl | rfl | rfl
    · exact text_throws _ _
    · exact text_throws _ _
    · exact budget_throws _ _
    · exact budget_throws _ _
  · refine (throws_choice _ o.direction _).bind fun _ _ => ?_
    refine (throws_nonnegative _ o.budgetNodes).bind fun _ _ => ?_
    exact (throws_nonnegative _ o.budgetDepth).bind fun _ _ => throws_ok _

theorem traceStoresOpts_throws : ∀ opt ∈ traceStoresOpts, opt.Throws := by
  intro opt h
  simp only [traceStoresOpts, List.mem_cons, List.not_mem_nil, or_false] at h
  rcases h with rfl | rfl | rfl | rfl
  · exact text_throws _ _
  · exact text_throws _ _
  · exact budget_throws _ _
  · exact budget_throws _ _

theorem throws_traceChecks (o : TraceOptions) : Throws (traceChecks o) := by
  refine (throws_nonnegative _ o.budgetNodes).bind fun _ _ => ?_
  refine (throws_nonnegative _ o.budgetDepth).bind fun _ _ => ?_
  exact throws_choice _ o.detail _

theorem throws_traceStores (args : List Arg) : Throws (traceStores args) := by
  refine (throws_take args).bind fun a _ => ?_
  refine (throws_options_unknown traceStoresOpts_throws _ a.2 _).bind fun o _ => ?_
  exact (throws_traceChecks o).bind fun _ _ => throws_ok _

theorem throws_traceReturn (args : List Arg) : Throws (traceReturn args) := by
  refine (throws_take args).bind fun a _ => ?_
  refine (throws_options_unknown ?_ _ a.2 _).bind fun o _ => ?_
  · intro opt h
    rcases List.mem_cons.mp h with rfl | h
    · exact text_throws _ _
    · exact traceStoresOpts_throws opt h
  · exact (throws_traceChecks o).bind fun _ _ => throws_ok _

theorem throws_graph (args : List Arg) : Throws (graph args) := by
  refine (throws_take args).bind fun a _ => ?_
  refine (throws_options ?_ ?_ a.2 _).bind fun o _ => ?_
  · intro opt h
    simp only [graphOpts, List.mem_cons, List.not_mem_nil, or_false] at h
    rcases h with rfl | rfl | rfl
    · exact text_throws _ _
    · exact text_throws _ _
    · intro value s message he
      simp only at he
      cases hc : requireChoice "--view".toList value ["value".toList] with
      | error e =>
        rw [hc] at he
        exact throws_choice _ value _ message (hc.trans (by simpa [Except.map] using he))
      | ok u =>
        rw [hc] at he
        cases he
  · intro opt h
    obtain rfl := Otherwise.option.inj h
    exact budget_throws _ _
  · refine (throws_choice _ o.direction _).bind fun _ _ => ?_
    refine (throws_choice _ o.format _).bind fun _ _ => ?_
    exact (throws_nonnegative _ o.budget).bind fun _ _ => throws_ok _

/-! ### The three that return it -/

/-- A loop over `--name` that reads anything has a name. -/
theorem options_name {args : List Arg} {name r : Option Arg}
    (h : options [] (.option (text "--name" fun value _ => some value)) args name = .ok r)
    (hread : args ≠ [] ∨ name.isSome = true) : r.isSome = true := by
  have hset : ∀ {opt : Opt (Option Arg)} {a value : Arg} {s s' : Option Arg},
      pick [] (.option (text "--name" fun value _ => some value)) a = .ok opt →
      opt.set value s = .ok s' → s'.isSome = true := by
    intro opt a value s s' hp hs
    rcases pick_ok hp with hmem | hlast
    · cases hmem
    · obtain rfl := Otherwise.option.inj hlast
      obtain rfl := Except.ok.inj hs
      rfl
  fun_induction options [] (.option (text "--name" fun value _ => some value)) args name with
  | case1 s =>
    obtain rfl := Except.ok.inj h
    rcases hread with hne | hsome
    · exact absurd rfl hne
    · exact hsome
  | case2 a rest s e hp => cases h
  | case3 a rest s opt hp _ e hs => cases h
  | case4 a rest s opt hp _ s' hs ih => exact ih h (.inr (hset hp hs))
  | case5 a rest s opt hp _ hne => cases h
  | case6 a s opt hp _ _ => cases h
  | case7 a s opt hp _ _ value rest e hs => cases h
  | case8 a s opt hp _ _ value rest s' hs ih => exact ih h (.inr (hset hp hs))

theorem init_usage (args : List Arg) :
    (∃ message, init args = .error (.usage message)) ↔ args = [] := by
  constructor
  · intro h
    obtain ⟨message, h⟩ := h
    by_contra hne
    unfold init at h
    cases hloop : options [] (.option (text "--name" fun value _ => some value)) args none with
    | error e =>
      have hthrows := throws_options_one (text_throws "--name" fun value _ => some value) args none
      simp only [hloop, bind, Except.bind, Except.error.injEq] at h
      exact hthrows message (by rw [hloop, h])
    | ok name =>
      have hsome := options_name hloop (.inl hne)
      obtain ⟨name, rfl⟩ := Option.isSome_iff_exists.mp hsome
      simp [hloop, bind, Except.bind, pure, Except.pure] at h
  · intro h
    exact ⟨_, by rw [h]; rfl⟩

theorem throws_ingestOptions (args : List Arg) (index : Arg) (refresh : Bool) :
    Throws (ingestOptions args index refresh) := by
  fun_induction ingestOptions args index refresh with
  | case1 => exact throws_ok _
  | case2 _ _ _ ih => exact ih
  | case3 => assumption
  | case4 => exact throws_error _
  | case5 => exact throws_error _
  | case6 => assumption

/-- A branch that asks for a subcommand first. -/
theorem subcommand_usage {word message : Arg} {k : List Arg → Parse ServiceCall}
    (hk : ∀ rest, Throws (k rest)) (args : List Arg) :
    (∃ m, (take args >>= fun x => if x.1 ≠ word then .error (.usage message) else k x.2) =
        .error (.usage m)) ↔ ∃ a rest, args = a :: rest ∧ a ≠ word := by
  cases args with
  | nil =>
    constructor
    · intro h
      obtain ⟨m, h⟩ := h
      cases h
    · intro h
      obtain ⟨a, rest, h, _⟩ := h
      cases h
  | cons a rest =>
    simp only [take, bind, Except.bind]
    by_cases ha : a = word
    · constructor
      · intro h
        obtain ⟨m, h⟩ := h
        rw [if_neg (not_not_intro ha)] at h
        exact absurd h (hk rest m)
      · intro h
        obtain ⟨b, rest', h, hb⟩ := h
        obtain ⟨rfl, _⟩ := List.cons.inj h
        exact absurd ha hb
    · constructor
      · exact fun _ => ⟨a, rest, rfl, ha⟩
      · exact fun _ => ⟨message, by rw [if_pos ha]⟩

theorem throws_ingestLlvm (args : List Arg) : Throws (ingestLlvm args) := by
  refine (throws_take args).bind fun path _ => ?_
  refine (throws_ingestOptions path.2 _ _).bind fun read _ => ?_
  exact (throws_choice _ read.1 _).bind fun _ _ => throws_ok _

theorem ingest_usage (args : List Arg) :
    (∃ message, ingest args = .error (.usage message)) ↔
      ∃ a rest, args = a :: rest ∧ a ≠ "llvm".toList :=
  subcommand_usage throws_ingestLlvm args

theorem materialize_usage (args : List Arg) :
    (∃ message, materialize args = .error (.usage message)) ↔
      ∃ a rest, args = a :: rest ∧ a ≠ "function".toList :=
  subcommand_usage (throws_handleAlone .materialize) args

/-! ### The dispatch -/

/-- Every other command throws. -/
theorem command_throws : ∀ c ∈ commands, c.name ≠ "init".toList → c.name ≠ "ingest".toList →
    c.name ≠ "materialize".toList → ∀ args, Throws (c.parse args) := by
  intro c hc hinit hingest hmaterialize args
  simp only [commands, List.mem_cons, List.not_mem_nil, or_false] at hc
  rcases hc with rfl | rfl | rfl | rfl | rfl | rfl | rfl | rfl | rfl | rfl | rfl | rfl | rfl |
    rfl | rfl | rfl | rfl | rfl | rfl
  · exact absurd rfl hinit
  · exact (throws_end args).bind fun _ _ => throws_ok _
  · exact throws_backup args
  · exact throws_capabilities args
  · exact absurd rfl hingest
  · exact throws_reindex args
  · exact (throws_end args).bind fun _ _ => throws_ok _
  · exact throws_functions args
  · exact absurd rfl hmaterialize
  · exact throws_show args
  · exact throws_handleAlone _ args
  · exact throws_handleBudget _ args
  · exact throws_slice args
  · exact throws_graph args
  · exact throws_handleBudget _ args
  · exact throws_handleAlone _ args
  · exact throws_handleBudget _ args
  · exact throws_traceReturn args
  · exact throws_traceStores args

theorem findCommand_name {name : Arg} {c : Command} (h : findCommand name = some c) :
    c ∈ commands ∧ c.name = name := by
  have hcond := List.find?_some h
  exact ⟨List.mem_of_find?_eq_some h, by simpa using hcond⟩

/-- **When a dispatch returns `usage_error`.** -/
theorem dispatch_usage (name : Arg) (args : List Arg) :
    (∃ message, dispatch name args = .error (.usage message)) ↔ UsageCommand name args := by
  unfold dispatch
  cases hfind : findCommand name with
  | none =>
    have hunknown : ∀ c ∈ commands, c.name ≠ name := by
      intro c hc he
      have hnone := List.find?_eq_none.mp hfind c hc
      simp [he] at hnone
    exact ⟨fun _ => .inl hunknown, fun _ => ⟨_, rfl⟩⟩
  | some c =>
    obtain ⟨hc, hname⟩ := findCommand_name hfind
    have hknown : ¬ ∀ c ∈ commands, c.name ≠ name := fun h => h c hc hname
    show (∃ message, c.parse args = .error (.usage message)) ↔ UsageCommand name args
    by_cases hinit : name = "init".toList
    · subst hinit
      obtain rfl : command "init" "usage: irez init --name NAME" init = c :=
        Option.some.inj hfind
      refine (init_usage args).trans ⟨fun h => .inr (.inl ⟨rfl, h⟩), ?_⟩
      intro h
      rcases h with h | ⟨_, h⟩ | ⟨h, _⟩ | ⟨h, _⟩
      · exact absurd h hknown
      · exact h
      · exact absurd h (by decide)
      · exact absurd h (by decide)
    · by_cases hingest : name = "ingest".toList
      · subst hingest
        obtain rfl : command "ingest"
            "usage: irez ingest llvm PATH [--index catalog|full] [--refresh]" ingest = c :=
          Option.some.inj hfind
        refine (ingest_usage args).trans ⟨fun h => .inr (.inr (.inl ⟨rfl, h⟩)), ?_⟩
        intro h
        rcases h with h | ⟨h, _⟩ | ⟨_, h⟩ | ⟨h, _⟩
        · exact absurd h hknown
        · exact absurd h hinit
        · exact h
        · exact absurd h (by decide)
      · by_cases hmaterialize : name = "materialize".toList
        · subst hmaterialize
          obtain rfl : command "materialize" "usage: irez materialize function HANDLE"
              materialize = c := Option.some.inj hfind
          refine (materialize_usage args).trans ⟨fun h => .inr (.inr (.inr ⟨rfl, h⟩)), ?_⟩
          intro h
          rcases h with h | ⟨h, _⟩ | ⟨h, _⟩ | ⟨_, h⟩
          · exact absurd h hknown
          · exact absurd h hinit
          · exact absurd h hingest
          · exact h
        · have hthrows := command_throws c hc (hname ▸ hinit) (hname ▸ hingest)
            (hname ▸ hmaterialize) args
          constructor
          · intro h
            obtain ⟨message, h⟩ := h
            exact absurd h (hthrows message)
          · intro h
            rcases h with h | ⟨h, _⟩ | ⟨h, _⟩ | ⟨h, _⟩
            · exact absurd h hknown
            · exact absurd h hinit
            · exact absurd h hingest
            · exact absurd h hmaterialize

/-! ## 4. The program -/

theorem isFor_self (name : Arg) : isFor name name = true := by
  simp [isFor]

theorem isFor_of_equals {name a : Arg} (h : withEquals name a = true) : isFor name a = true := by
  simp [isFor, h]

theorem withEquals_stateDirName : withEquals stateDirName stateDirName = false := rfl

theorem behind_here {before dir a : Arg} {args rest : List Arg} (h : isFor stateDirName a = false) :
    Behind before (a :: args) dir rest ↔ dir = before ∧ rest = a :: args := by
  constructor
  · intro hb
    cases hb with
    | here => exact ⟨rfl, rfl⟩
    | equals he =>
      rw [isFor_of_equals he] at h
      cases h
    | pair =>
      rw [isFor_self] at h
      cases h
  · intro ⟨hd, hr⟩
    rw [hd, hr]
    refine .here fun b hb => ?_
    obtain rfl := Option.some.inj hb
    exact h

theorem behind_equals {before dir a : Arg} {args rest : List Arg}
    (h : withEquals stateDirName a = true) : Behind before (a :: args) dir rest ↔
      Behind (a.drop (stateDirName.length + 1)) args dir rest := by
  constructor
  · intro hb
    cases hb with
    | here hhead =>
      have hno := hhead a rfl
      rw [isFor_of_equals h] at hno
      cases hno
    | equals _ hb => exact hb
    | pair =>
      rw [withEquals_stateDirName] at h
      cases h
  · exact .equals h

theorem behind_pair {before value dir : Arg} {args rest : List Arg} :
    Behind before (stateDirName :: value :: args) dir rest ↔ Behind value args dir rest := by
  constructor
  · intro hb
    cases hb with
    | here hhead =>
      have hno := hhead stateDirName rfl
      rw [isFor_self] at hno
      cases hno
    | equals h =>
      rw [withEquals_stateDirName] at h
      cases h
    | pair hb => exact hb
  · exact .pair

theorem not_behind {before dir : Arg} {rest : List Arg} : ¬ Behind before [stateDirName] dir rest := by
  intro hb
  cases hb with
  | here hhead =>
    have hno := hhead stateDirName rfl
    rw [isFor_self] at hno
    cases hno
  | equals h =>
    rw [withEquals_stateDirName] at h
    cases h

/-- An argument for the state directory begins with two dashes. -/
theorem isLong_of_isFor {a : Arg} (h : isFor stateDirName a = true) : isLong a = true := by
  simp only [isFor, Bool.or_eq_true, decide_eq_true_eq] at h
  rcases h with rfl | h
  · rfl
  · have hstart : ['-', '-'] <+: stateDirName ++ ['='] := by decide
    exact List.isPrefixOf_iff_prefix.mpr (hstart.trans (List.isPrefixOf_iff_prefix.mp h))

theorem request_usage (dir name : Arg) (args : List Arg) :
    (∃ message, request dir name args = .usage message) ↔ UsageCommand name args := by
  rw [← dispatch_usage]
  unfold request
  cases dispatch name args with
  | ok c => simp
  | error e => cases e <;> simp

/-- **The global options return `usage_error`** on what stands behind them, where the constructor
    returns. -/
theorem globals_usage (absolute : Arg → Bool) (args : List Arg) (dir : Arg) :
    (∃ message, globals dir args = .usage message) ∧
        (∀ d, serviceDir dir args = some d → absolute d = true) ↔
      ∃ dir' rest, Behind dir args dir' rest ∧ UsageRest absolute dir' rest := by
  fun_induction globals dir args with
  | case1 dir =>
    refine ⟨fun _ => ⟨dir, [], .here (fun _ h => by cases h), trivial⟩, fun _ => ⟨⟨_, rfl⟩, ?_⟩⟩
    intro d h
    cases h
  | case2 dir a rest hlong heq ih =>
    have hdir : serviceDir dir (a :: rest) =
        serviceDir (a.drop (stateDirName.length + 1)) rest := by
      rw [serviceDir.eq_def]
      simp only [hlong, heq, if_true]
    rw [hdir, ih]
    simp only [behind_equals heq]
  | case3 dir _ _ =>
    constructor
    · intro ⟨⟨message, h⟩, _⟩
      cases h
    · intro ⟨_, rest, hb, _⟩
      exact absurd hb not_behind
  | case4 dir value rest _ _ ih =>
    have hdir : serviceDir dir (stateDirName :: value :: rest) = serviceDir value rest := rfl
    rw [hdir, ih]
    simp only [behind_pair]
  | case5 dir rest hlong heq hne =>
    have hother : isFor stateDirName "--help".toList = false := rfl
    constructor
    · intro ⟨⟨message, h⟩, _⟩
      cases h
    · intro ⟨dir', rest', hb, hrest⟩
      obtain ⟨rfl, rfl⟩ := (behind_here hother).mp hb
      rcases hrest with ⟨_, hhelp⟩ | ⟨hshort, _⟩
      · exact absurd rfl hhelp
      · rw [hlong] at hshort
        cases hshort
  | case6 dir a rest hlong heq hne hhelp =>
    have hother : isFor stateDirName a = false := by
      simp [isFor, heq, hne]
    have hdir : serviceDir dir (a :: rest) = none := by
      rw [serviceDir.eq_def]
      simp only [hlong, heq, hne, if_true, Bool.false_eq_true, if_false]
    refine ⟨fun _ => ⟨dir, a :: rest, (behind_here hother).mpr ⟨rfl, rfl⟩, .inl ⟨hlong, hhelp⟩⟩,
      fun _ => ⟨⟨_, rfl⟩, fun d h => ?_⟩⟩
    rw [hdir] at h
    cases h
  | case7 dir a rest hshort =>
    have hother : isFor stateDirName a = false := by
      by_contra h
      exact hshort (isLong_of_isFor (by simpa using h))
    have hdir : serviceDir dir (a :: rest) = some dir := by
      rw [serviceDir.eq_def]
      simp only [hshort, Bool.false_eq_true, if_false]
    rw [request_usage, hdir]
    constructor
    · intro ⟨h, habsolute⟩
      exact ⟨dir, a :: rest, (behind_here hother).mpr ⟨rfl, rfl⟩,
        .inr ⟨by simpa using hshort, habsolute dir rfl, h⟩⟩
    · intro ⟨dir', rest', hb, hrest⟩
      obtain ⟨rfl, rfl⟩ := (behind_here hother).mp hb
      rcases hrest with ⟨hlong, _⟩ | ⟨_, habsolute, h⟩
      · exact absurd hlong hshort
      · refine ⟨h, fun d hd => ?_⟩
        rw [← Option.some.inj hd]
        exact habsolute

/-- **When a run ends in `usage_error`.** -/
theorem run_usage (absolute : Arg → Bool) (env : Option Arg) (argv : List Arg) :
    (∃ message, run absolute env argv = some (.usage message)) ↔ UsageForm absolute env argv := by
  refine Iff.trans ?_ (globals_usage absolute _ _)
  unfold run
  cases hdir : serviceDir (env.getD ".irez".toList) (argv.map cString) with
  | none => simp [asked]
  | some dir =>
    cases habsolute : absolute dir with
    | false => simp [habsolute]
    | true => simp [asked, habsolute]

theorem behind_nil (e : Exit) : Exit.behind [] e = e := by
  unfold Exit.behind Output.behind
  rw [if_pos rfl]

/-- **When a failure is a structured error.** Whatever the service answers, where LLVM prints
    nothing on stderr, a run that fails prints one error object with the exit code in it, exactly
    where the arguments are none that end in `usage_error`. -/
theorem failure_structured (absolute : Arg → Bool) (what : Arg) (service : Service)
    (env : Option Arg) (argv : List Arg)
    (hquiet : ∀ stateDir c, (service stateDir c).diagnostics = [])
    (hfail : (main absolute what service env argv).code ≠ 0) :
    Structured (main absolute what service env argv) ↔ ¬ UsageForm absolute env argv := by
  rw [← run_usage]
  unfold main at hfail ⊢
  cases hrun : run absolute env argv with
  | none => simp [failed_structured]
  | some asked =>
    rw [hrun] at hfail
    cases asked with
    | help => exact absurd rfl hfail
    | usage message =>
      constructor
      · exact fun h => absurd h (usageError_unstructured message)
      · exact fun h => absurd ⟨message, rfl⟩ h
    | refused name message => simp [failed_structured]
    | call stateDir name c =>
      simp only [Answer.exit, hquiet, behind_nil] at hfail ⊢
      cases hservice : (service stateDir c).result with
      | ok response => simp [hservice] at hfail
      | error t => simp [failed_structured]

/-- A service that knows nothing. -/
def notInitialized : Service := fun _ _ =>
  ⟨[], .error (.state "state is not initialized; run `irez init`".toList)⟩

/-- The state directories that libstdc++ makes a path of. -/
def notEmpty (dir : Arg) : Bool := dir ≠ []

/-- The constructor throws before the command is looked at. -/
theorem failure_structured_sample :
    Structured (main notEmpty "cannot make absolute path".toList notInitialized none
      ["--state-dir=".toList, "frobnicate".toList]) := by
  have hfail : (main notEmpty "cannot make absolute path".toList notInitialized none
      ["--state-dir=".toList, "frobnicate".toList]).code ≠ 0 := by decide
  refine (failure_structured notEmpty _ notInitialized none _ (fun _ _ => rfl) hfail).mpr ?_
  rw [← run_usage]
  intro ⟨message, h⟩
  cases h

/-- **A command that is not known**: the program exits with code 2, and prints text. -/
theorem unknown_command_text :
    (main notEmpty [] notInitialized none ["frobnicate".toList]).code = 2 ∧
      (main notEmpty [] notInitialized none ["frobnicate".toList]).stderr =
        .text ("error: unknown command: frobnicate\n".toList ++ kUsage) ∧
      ¬ Structured (main notEmpty [] notInitialized none ["frobnicate".toList]) := by
  refine ⟨rfl, rfl, ?_⟩
  exact usageError_unstructured "unknown command: frobnicate".toList

end Irez.Cli
