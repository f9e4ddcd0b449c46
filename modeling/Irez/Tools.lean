/-
  File:      Irez/Tools.lean
  Subject:   The tools of the MCP server (mcp/src/main.rs) and the command line they build.

  A tool turns its arguments into a vector for `irez`, each option as a pair of its name and its
  value. The option loops take the value with the name, so what stands in a value is never looked
  at as an option, and never as a command.

  * `Tool` -- the fourteen tools with their arguments; `argv` -- the vector they build;
  * `Tool.call` -- the call of the service that is meant;
  * `stoll_decimal`, `split_join` -- integers and lists are read as they were written;
  * `options_pair` -- an option's name and value at the front of a loop;
  * `tool_runs` -- the command line makes that call, or refuses with code 2.
-/
import Irez.Cli
import Mathlib.Data.List.TakeWhile

namespace Irez.Cli

/-! ## 1. The tools -/

/-- A value of `i64`. -/
structure I64 where
  val : Int
  bounds : IsI64 val

/-- `to_string` of an integer. -/
def decimal (n : Int) : Arg :=
  if n < 0 then '-' :: Nat.toDigits 10 n.natAbs else Nat.toDigits 10 n.natAbs

/-- `join(",")`. -/
def join (parts : List Arg) : Arg := [','].intercalate parts

/-- `HandleArgs`. -/
structure HandleArgs where
  handle : Option Arg
  id : Option Arg
  entityId : Option Arg
  deriving DecidableEq, Repr

/-- `McpError::invalid_params`. -/
structure InvalidParams where
  message : String
  deriving DecidableEq, Repr

def HandleArgs.supplied (a : HandleArgs) : List Arg :=
  a.handle.toList ++ a.id.toList ++ a.entityId.toList

def HandleArgs.resolve (a : HandleArgs) : Except InvalidParams Arg :=
  match a.supplied with
  | [] => .error
    ⟨"pass the returned entity `handle` (legacy `id` and `entity_id` are accepted)"⟩
  | first :: rest =>
    if (first :: rest).any (· ≠ first) then .error ⟨"conflicting handle/id/entity_id values"⟩
    else .ok first

/-- **A tool with its arguments**; what may be left out is an option. -/
inductive Tool where
  | status
  | artifacts
  | capabilities (artifact : Option Arg)
  | functions (artifact pattern : Option Arg)
  | show (entity : HandleArgs) (view kind : Option Arg) (budgetNodes : Option I64)
  | source (entity : HandleArgs)
  | uses (entity : HandleArgs) (budgetNodes : Option I64)
  | slice (entity : HandleArgs) (direction relations : Option Arg)
      (budgetNodes budgetDepth : Option I64)
  | guards (entity : HandleArgs) (budgetNodes : Option I64)
  | graph (entity : HandleArgs) (direction : Option Arg) (budgetNodes : Option I64)
      (format : Option Arg)
  | expand (entity : HandleArgs)
  | context (entity : HandleArgs) (budgetNodes : Option I64)
  | traceReturn (entity : HandleArgs) (selector : Option Arg)
      (budgetNodes budgetDepth : Option I64) (detail : Option Arg)
      (sections : Option (List Arg))
  | traceStores (entity : HandleArgs) (budgetNodes budgetDepth : Option I64)
      (detail : Option Arg) (sections : Option (List Arg))

/-! ### Defaults -/

def defaultBudgetNodes : I64 := ⟨100, by decide⟩

def defaultDirection : Arg := "backward".toList

def defaultRelations : Arg := "operand,control".toList

def defaultBudgetDepth : I64 := ⟨12, by decide⟩

def defaultTraceBudgetNodes : I64 := ⟨50, by decide⟩

def defaultTraceBudgetDepth : I64 := ⟨8, by decide⟩

def defaultFormat : Arg := "json".toList

/-! ### The vectors -/

/-- `push_opt`. -/
def pushOpt (args : List Arg) (flag : String) : Option Arg → List Arg
  | some v => args ++ [flag.toList, v]
  | none => args

/-- An integer option, with its default. -/
def integerArgs (flag : String) (n : Option I64) (default : I64) : List Arg :=
  [flag.toList, decimal (n.getD default).val]

/-- `detail` and `include` at the end of the two trace commands. -/
def traceTail (detail : Option Arg) (sections : Option (List Arg)) (argv : List Arg) :
    List Arg :=
  pushOpt (pushOpt argv "--detail" detail) "--include" (sections.map join)

/-- A handle with a budget behind it. -/
def budgetArgv (command : String) (entity : HandleArgs) (budgetNodes : Option I64) :
    Except InvalidParams (List Arg) := do
  let handle ← entity.resolve
  return command.toList :: handle ::
    integerArgs "--budget-nodes" budgetNodes defaultBudgetNodes

/-- The arguments that a tool gives to `run_irez`. -/
def Tool.argv : Tool → Except InvalidParams (List Arg)
  | .status => .ok ["status".toList]
  | .artifacts => .ok ["artifacts".toList]
  | .capabilities artifact => .ok (pushOpt ["capabilities".toList] "--artifact" artifact)
  | .functions artifact pattern =>
    .ok (pushOpt (pushOpt ["functions".toList] "--artifact" artifact) "--match" pattern)
  | .show entity view kind budgetNodes => do
    let handle ← entity.resolve
    return pushOpt (pushOpt ["show".toList, handle] "--view" view) "--kind" kind ++
      integerArgs "--budget-nodes" budgetNodes defaultBudgetNodes
  | .source entity => do return ["source".toList, ← entity.resolve]
  | .uses entity budgetNodes => budgetArgv "uses" entity budgetNodes
  | .slice entity direction relations budgetNodes budgetDepth => do
    let handle ← entity.resolve
    return ["slice".toList, handle, "--direction".toList, direction.getD defaultDirection,
      "--relations".toList, relations.getD defaultRelations] ++
      integerArgs "--budget-nodes" budgetNodes defaultBudgetNodes ++
      integerArgs "--budget-depth" budgetDepth defaultBudgetDepth
  | .guards entity budgetNodes => budgetArgv "guards" entity budgetNodes
  | .graph entity direction budgetNodes format => do
    let handle ← entity.resolve
    return ["graph".toList, handle, "--direction".toList, direction.getD defaultDirection] ++
      integerArgs "--budget-nodes" budgetNodes defaultBudgetNodes ++
      ["--format".toList, format.getD defaultFormat]
  | .expand entity => do return ["expand".toList, ← entity.resolve]
  | .context entity budgetNodes => budgetArgv "context" entity budgetNodes
  | .traceReturn entity selector budgetNodes budgetDepth detail sections => do
    let handle ← entity.resolve
    return traceTail detail sections
      (["trace-return".toList, handle, "--return".toList, selector.getD "all".toList] ++
        integerArgs "--budget-nodes" budgetNodes defaultTraceBudgetNodes ++
        integerArgs "--budget-depth" budgetDepth defaultTraceBudgetDepth)
  | .traceStores entity budgetNodes budgetDepth detail sections => do
    let handle ← entity.resolve
    return traceTail detail sections
      (["trace-stores".toList, handle] ++
        integerArgs "--budget-nodes" budgetNodes defaultTraceBudgetNodes ++
        integerArgs "--budget-depth" budgetDepth defaultTraceBudgetDepth)

/-- The arguments of the process that `run_irez` starts, behind the name of the program. -/
def processArgs (stateDir : Arg) (argv : List Arg) : List Arg :=
  "--state-dir".toList :: stateDir :: argv

/-! ## 2. What is meant -/

/-- The handle that is given, under whichever of its names. -/
def HandleArgs.given (a : HandleArgs) : Arg := a.supplied.headD []

/-- An integer that is given, or a default of the command line. -/
def orDefault (n : Option I64) (default : Int) : Int := (n.map (·.val)).getD default

/-- **The call that is meant**: what is given, and otherwise the defaults of the command line. -/
def Tool.call : Tool → ServiceCall
  | .status => .status
  | .artifacts => .artifacts
  | .capabilities artifact => .capabilities artifact
  | .functions artifact pattern => .functions artifact pattern
  | .show entity view kind n =>
    .show entity.given (view.getD "summary".toList) kind (orDefault n 100)
  | .source entity => .source entity.given
  | .uses entity n => .uses entity.given (orDefault n 100)
  | .slice entity direction relations n depth =>
    .slice entity.given (direction.getD "backward".toList)
      (split (relations.getD "operand,control".toList) ',') (orDefault n 100) (orDefault depth 12)
  | .guards entity n => .guards entity.given (orDefault n 100)
  | .graph entity direction n format =>
    .graph entity.given (direction.getD "backward".toList) (orDefault n 100)
      (format.getD "json".toList)
  | .expand entity => .expand entity.given
  | .context entity n => .context entity.given (orDefault n 100)
  | .traceReturn entity selector n depth detail sections =>
    .traceReturn entity.given (selector.getD "all".toList) (orDefault n 50) (orDefault depth 8)
      (detail.getD "summary".toList) (sections.getD [])
  | .traceStores entity n depth detail sections =>
    .traceStores entity.given (orDefault n 50) (orDefault depth 8) (detail.getD "summary".toList)
      (sections.getD [])

/-- A value that is left out, or is one of the choices. -/
def Chosen (value : Option Arg) (choices : List Arg) : Prop := ∀ v, value = some v → v ∈ choices

/-- An integer that is left out, or is not negative. -/
def NonNegative (n : Option I64) : Prop := ∀ i, n = some i → 0 ≤ i.val

/-- **Budgets are not negative and enumerated values are valid.** -/
def Tool.Admissible : Tool → Prop
  | .show _ view kind n => Chosen view ["summary".toList, "exact".toList, "children".toList] ∧
    Chosen kind ["block".toList, "return".toList, "call".toList] ∧ NonNegative n
  | .uses _ n | .guards _ n | .context _ n => NonNegative n
  | .slice _ direction _ n depth => Chosen direction ["backward".toList, "forward".toList] ∧
    NonNegative n ∧ NonNegative depth
  | .graph _ direction n format => Chosen direction ["backward".toList, "forward".toList] ∧
    Chosen format ["json".toList, "exact-ir".toList] ∧ NonNegative n
  | .traceReturn _ _ n depth detail _ | .traceStores _ n depth detail _ =>
    NonNegative n ∧ NonNegative depth ∧ Chosen detail ["graph".toList, "summary".toList]
  | _ => True

/-- The sections that are asked for. -/
def Tool.sections : Tool → List Arg
  | .traceReturn _ _ _ _ _ sections | .traceStores _ _ _ _ sections => sections.getD []
  | _ => []

/-- The texts of the arguments. -/
def Tool.texts : Tool → List Arg
  | .status | .artifacts => []
  | .capabilities artifact => artifact.toList
  | .functions artifact pattern => artifact.toList ++ pattern.toList
  | .show entity view kind _ => entity.supplied ++ view.toList ++ kind.toList
  | .source entity | .expand entity => entity.supplied
  | .uses entity _ | .guards entity _ | .context entity _ => entity.supplied
  | .slice entity direction relations _ _ =>
    entity.supplied ++ direction.toList ++ relations.toList
  | .graph entity direction _ format => entity.supplied ++ direction.toList ++ format.toList
  | .traceReturn entity selector _ _ detail sections =>
    entity.supplied ++ selector.toList ++ detail.toList ++ sections.getD []
  | .traceStores entity _ _ detail sections =>
    entity.supplied ++ detail.toList ++ sections.getD []

/-- **Arguments that can be passed**: no text has a NUL in it, and a section is not empty and has
    no comma in it. -/
structure Tool.Plain (t : Tool) : Prop where
  texts : ∀ a ∈ t.texts, '\x00' ∉ a
  sections : ∀ a ∈ t.sections, a ≠ [] ∧ ',' ∉ a

/-! ## 3. Integers and lists -/

theorem toDigits_isDigit {n : Nat} : ∀ c ∈ Nat.toDigits 10 n, c.isDigit = true := fun _ hc =>
  Nat.isDigit_of_mem_toDigits (by decide) (by decide) hc

theorem digit_not_space {c : Char} (h : c.isDigit = true) :
    isSpace c = false ∧ c ≠ '-' ∧ c ≠ '+' := by
  have hrange : 48 ≤ c.toNat ∧ c.toNat ≤ 57 := by
    simpa [Char.isDigit, UInt32.le_iff_toNat_le] using h
  have hne : ∀ d : Char, d.toNat < 48 → c ≠ d := by
    intro d hd he
    rw [he] at hrange
    omega
  refine ⟨?_, hne '-' (by decide), hne '+' (by decide)⟩
  simp [isSpace, hne ' ' (by decide), hne '\t' (by decide), hne '\n' (by decide),
    hne '\x0b' (by decide), hne '\x0c' (by decide), hne '\r' (by decide)]

theorem signed_toDigits {negative : Bool} {n : Nat} :
    signed negative (Nat.toDigits 10 n) =
      if IsI64 (if negative then -(n : Int) else n) then
        some (if negative then -(n : Int) else n)
      else none := by
  have htake : (Nat.toDigits 10 n).takeWhile Char.isDigit = Nat.toDigits 10 n :=
    List.takeWhile_eq_self_iff.mpr toDigits_isDigit
  have hne : Nat.toDigits 10 n ≠ [] := Nat.toDigits_ne_nil
  simp [signed, htake, hne]

/-- A number without a sign. -/
theorem stoll_toDigits (n : Nat) : stoll (Nat.toDigits 10 n) = signed false (Nat.toDigits 10 n) := by
  have hne : Nat.toDigits 10 n ≠ [] := Nat.toDigits_ne_nil
  cases hd : Nat.toDigits 10 n with
  | nil => exact absurd hd hne
  | cons c rest =>
    have hc : c.isDigit = true := toDigits_isDigit c (by rw [hd]; exact List.mem_cons_self)
    obtain ⟨hspace, hminus, hplus⟩ := digit_not_space hc
    have hdrop : (c :: rest).dropWhile isSpace = c :: rest := by
      simp [hspace]
    unfold stoll
    rw [hdrop]
    split
    · next h =>
      cases h
      exact absurd rfl hminus
    · next h =>
      cases h
      exact absurd rfl hplus
    · rfl

/-- **An integer is read as it was written.** -/
theorem stoll_decimal (n : I64) : stoll (decimal n.val) = some n.val := by
  obtain ⟨n, hn⟩ := n
  unfold decimal
  by_cases hneg : n < 0
  · have hvalue : -(n.natAbs : Int) = n := by omega
    have hdrop : ('-' :: Nat.toDigits 10 n.natAbs).dropWhile isSpace =
        '-' :: Nat.toDigits 10 n.natAbs := by
      simp [isSpace]
    have hsigned : signed true (Nat.toDigits 10 n.natAbs) = some n := by
      rw [signed_toDigits]
      simp only [if_true, hvalue, hn]
    simp only [if_pos hneg, stoll, hdrop, hsigned]
  · have hvalue : (n.natAbs : Int) = n := by omega
    rw [if_neg hneg, stoll_toDigits, signed_toDigits]
    simp only [Bool.false_eq_true, if_false, hvalue, hn, if_true]

theorem splitLoop_append {d : Char} {part : Arg} (h : d ∉ part) (current rest : Arg) :
    splitLoop d current (part ++ rest) = splitLoop d (current ++ part) rest := by
  induction part generalizing current with
  | nil => simp
  | cons c part ih =>
    have hc : c ≠ d := fun he => h (he ▸ List.mem_cons_self)
    have hrest : d ∉ part := fun hd => h (List.mem_cons_of_mem _ hd)
    simp [splitLoop, hc, ih hrest]

/-- **A list is read as it was written.** -/
theorem split_join {parts : List Arg} (hne : parts ≠ []) (h : ∀ a ∈ parts, ',' ∉ a) :
    split (join parts) ',' = parts := by
  unfold split join
  induction parts with
  | nil => exact absurd rfl hne
  | cons part parts ih =>
    have hpart := h part List.mem_cons_self
    cases parts with
    | nil =>
      have hsplit := splitLoop_append hpart [] []
      simpa [splitLoop] using hsplit
    | cons next parts =>
      have hrest := ih (List.cons_ne_nil _ _) fun a ha => h a (List.mem_cons_of_mem _ ha)
      rw [List.intercalate_cons_cons, List.append_assoc, splitLoop_append hpart]
      simpa [splitLoop] using hrest

theorem sectionsOf_join {parts : List Arg} (h : ∀ a ∈ parts, a ≠ [] ∧ ',' ∉ a) :
    sectionsOf (join parts) = parts := by
  unfold sectionsOf
  cases parts with
  | nil => rfl
  | cons part rest =>
    have hjoin : join (part :: rest) ≠ [] := by
      have hpart := (h part List.mem_cons_self).1
      cases rest with
      | nil => simpa [join] using hpart
      | cons next rest => simp [join, hpart]
    rw [if_neg hjoin, split_join (List.cons_ne_nil _ _) fun a ha => (h a ha).2]

/-! ## 4. Option loops -/

/-- The arguments of an option that may be left out. -/
def optional (flag : String) (value : Option Arg) : List Arg :=
  value.elim [] fun v => [flag.toList, v]

theorem pushOpt_eq (args : List Arg) (flag : String) (value : Option Arg) :
    pushOpt args flag value = args ++ optional flag value := by
  cases value <;> simp [pushOpt, optional]

theorem withEquals_self (name : Arg) : withEquals name name = false := by
  unfold withEquals
  cases h : (name ++ ['=']).isPrefixOf name with
  | false => rfl
  | true =>
    have hlength := (List.isPrefixOf_iff_prefix.mp h).length_le
    simp only [List.length_append, List.length_cons, List.length_nil] at hlength
    omega

section Options

variable {σ : Type} {opts : List (Opt σ)} {otherwise : Otherwise σ}

/-- **An option's name and its value are taken together.** -/
theorem options_pair {opt : Opt σ} {name : Arg} (hpick : pick opts otherwise name = .ok opt)
    (hname : opt.name = name) (value : Arg) (rest : List Arg) (s : σ) :
    options opts otherwise (name :: value :: rest) s =
      (opt.set value s).bind fun s' => options opts otherwise rest s' := by
  subst hname
  simp only [options, hpick, withEquals_self, Bool.false_eq_true, if_false, ne_eq, not_true_eq_false]
  cases opt.set value s <;> rfl

/-- An option with a text. -/
theorem options_text {name : String} {set : Arg → σ → σ}
    (hpick : pick opts otherwise name.toList = .ok (text name set)) (value : Arg)
    (rest : List Arg) (s : σ) :
    options opts otherwise (name.toList :: value :: rest) s =
      options opts otherwise rest (set value s) :=
  options_pair hpick rfl value rest s

/-- An option that may be left out. -/
theorem options_optional {name : String} {set : Arg → σ → σ}
    (hpick : pick opts otherwise name.toList = .ok (text name set)) (value : Option Arg)
    (rest : List Arg) (s : σ) :
    options opts otherwise (optional name value ++ rest) s =
      options opts otherwise rest (value.elim s fun v => set v s) := by
  cases value with
  | none => rfl
  | some v => exact options_text hpick v rest s

/-- An option with an integer. -/
theorem options_integer {name : String} {set : Int → σ → σ}
    (hpick : pick opts otherwise name.toList = .ok (budget name set)) (n : Option I64)
    (default : I64) (rest : List Arg) (s : σ) :
    options opts otherwise (integerArgs name n default ++ rest) s =
      options opts otherwise rest (set (n.getD default).val s) := by
  have hset : (budget name set).set (decimal (n.getD default).val) s =
      .ok (set (n.getD default).val s) := by
    simp [budget, integer, stoll_decimal, Except.map]
  have hpair := options_pair hpick rfl (decimal (n.getD default).val) rest s
  rw [hset] at hpair
  exact hpair

@[simp] theorem options_nil (s : σ) : options opts otherwise [] s = .ok s := rfl

end Options

/-! ## 5. Checks -/

/-- **A parse settles** on a call where a condition holds, and refuses with an error elsewhere. -/
def Settles (p : Parse ServiceCall) (condition : Prop) (c : ServiceCall) : Prop :=
  (condition → p = .ok c) ∧ (¬ condition → ∃ message, p = .error (.error message))

theorem settles_ok (c : ServiceCall) : Settles (.ok c) True c :=
  ⟨fun _ => rfl, fun h => absurd trivial h⟩

theorem Settles.congr {p : Parse ServiceCall} {a b : Prop} {c : ServiceCall}
    (h : Settles p a c) (hab : a ↔ b) : Settles p b c :=
  ⟨fun hb => h.1 (hab.mpr hb), fun hb => h.2 fun ha => hb (hab.mp ha)⟩

theorem settles_choice {p : Parse ServiceCall} {condition : Prop} {c : ServiceCall}
    (h : Settles p condition c) (name value : Arg) (choices : List Arg) :
    Settles (requireChoice name value choices >>= fun _ => p) (value ∈ choices ∧ condition) c := by
  unfold requireChoice
  by_cases hv : value ∈ choices
  · simpa [hv, bind, Except.bind] using h
  · constructor
    · exact fun hc => absurd hc.1 hv
    · exact fun _ => ⟨_, by simp only [if_neg hv, bind, Except.bind]; rfl⟩

theorem settles_nonnegative {p : Parse ServiceCall} {condition : Prop} {c : ServiceCall}
    (h : Settles p condition c) (name : Arg) (value : Int) :
    Settles (requireNonnegative name value >>= fun _ => p) (0 ≤ value ∧ condition) c := by
  unfold requireNonnegative
  by_cases hv : value < 0
  · constructor
    · intro hc
      omega
    · exact fun _ => ⟨_, by simp only [if_pos hv, bind, Except.bind]; rfl⟩
  · have hle : 0 ≤ value := by omega
    simpa [hv, hle, bind, Except.bind] using h

theorem chosen_getD {value : Option Arg} {default : Arg} {choices : List Arg}
    (h : default ∈ choices) : value.getD default ∈ choices ↔ Chosen value choices := by
  cases value with
  | none => simp [Chosen, h]
  | some v => simp [Chosen]

theorem nonNegative_orDefault {n : Option I64} {default : Int} (h : 0 ≤ default) :
    0 ≤ orDefault n default ↔ NonNegative n := by
  cases n with
  | none => simp [orDefault, NonNegative, h]
  | some i => simp [orDefault, NonNegative]

/-! ## 6. The commands -/

theorem handleBudget_settles (call : Arg → Int → ServiceCall) (handle : Arg) (n : Option I64) :
    Settles (handleBudget call
      (handle :: integerArgs "--budget-nodes" n defaultBudgetNodes)) (NonNegative n)
      (call handle (orDefault n 100)) := by
  have hloop : options [] (.option (budget "--budget-nodes" fun n _ => n))
      (integerArgs "--budget-nodes" n defaultBudgetNodes) 100 = .ok (orDefault n 100) := by
    rw [← List.append_nil (integerArgs _ _ _), options_integer rfl]
    cases n <;> rfl
  have hrun : handleBudget call (handle :: integerArgs "--budget-nodes" n defaultBudgetNodes) =
      requireNonnegative "--budget-nodes".toList (orDefault n 100) >>= fun _ =>
        .ok (call handle (orDefault n 100)) := by
    simp only [handleBudget, take, bind, Except.bind, hloop]
    rfl
  rw [hrun]
  refine (settles_nonnegative (settles_ok _) _ _).congr ?_
  rw [and_true, nonNegative_orDefault (by decide)]

theorem show_settles (handle : Arg) (view kind : Option Arg) (n : Option I64) :
    Settles («show» (handle :: (optional "--view" view ++ (optional "--kind" kind ++
      integerArgs "--budget-nodes" n defaultBudgetNodes))))
      (Chosen view viewChoices ∧ Chosen kind kindChoices ∧ NonNegative n)
      (.show handle (view.getD "summary".toList) kind (orDefault n 100)) := by
  have hloop : options showOpts (.unknown "show".toList) (optional "--view" view ++
      (optional "--kind" kind ++ (integerArgs "--budget-nodes" n defaultBudgetNodes)))
      ⟨"summary".toList, none, 100⟩ =
      .ok ⟨view.getD "summary".toList, kind, orDefault n 100⟩ := by
    rw [options_optional rfl, options_optional rfl, ← List.append_nil (integerArgs _ _ _),
      options_integer rfl]
    cases view <;> cases kind <;> cases n <;> rfl
  have hrun : «show» (handle :: (optional "--view" view ++ (optional "--kind" kind ++
      integerArgs "--budget-nodes" n defaultBudgetNodes))) =
      requireChoice "--view".toList (view.getD "summary".toList) viewChoices >>= fun _ =>
      kind.elim (pure ()) (fun kind => requireChoice "--kind".toList kind kindChoices) >>= fun _ =>
      requireNonnegative "--budget-nodes".toList (orDefault n 100) >>= fun _ =>
      .ok (.show handle (view.getD "summary".toList) kind (orDefault n 100)) := by
    simp only [«show», take, bind, Except.bind, hloop]
    rfl
  rw [hrun]
  have hbudget := settles_nonnegative
    (settles_ok (.show handle (view.getD "summary".toList) kind (orDefault n 100)))
    "--budget-nodes".toList (orDefault n 100)
  have hview : view.getD "summary".toList ∈ viewChoices ↔ Chosen view viewChoices :=
    chosen_getD (by decide)
  have hn : 0 ≤ orDefault n 100 ↔ NonNegative n := nonNegative_orDefault (by decide)
  cases kind with
  | none =>
    refine (settles_choice hbudget _ _ _).congr ?_
    rw [hview, hn, and_true]
    simp [Chosen]
  | some kind =>
    refine (settles_choice (settles_choice hbudget _ _ _) _ _ _).congr ?_
    rw [hview, hn, and_true]
    simp [Chosen]

/-- The arguments of `slice` behind its handle. -/
def sliceArgs (direction relations : Option Arg) (n depth : Option I64) : List Arg :=
  "--direction".toList :: direction.getD defaultDirection :: "--relations".toList ::
    relations.getD defaultRelations :: (integerArgs "--budget-nodes" n defaultBudgetNodes ++
      integerArgs "--budget-depth" depth defaultBudgetDepth)

theorem slice_settles (handle : Arg) (direction relations : Option Arg) (n depth : Option I64) :
    Settles (slice (handle :: sliceArgs direction relations n depth))
      (Chosen direction directionChoices ∧ NonNegative n ∧ NonNegative depth)
      (.slice handle (direction.getD "backward".toList)
        (split (relations.getD "operand,control".toList) ',') (orDefault n 100)
        (orDefault depth 12)) := by
  have hloop : options sliceOpts (.unknown "slice".toList) (sliceArgs direction relations n depth)
      ⟨"backward".toList, "operand,control".toList, 100, 12⟩ =
      .ok ⟨direction.getD "backward".toList, relations.getD "operand,control".toList,
        orDefault n 100, orDefault depth 12⟩ := by
    unfold sliceArgs
    rw [options_text rfl, options_text rfl, options_integer rfl,
      ← List.append_nil (integerArgs _ _ _), options_integer rfl]
    cases n <;> cases depth <;> rfl
  have hrun : slice (handle :: sliceArgs direction relations n depth) =
      requireChoice "--direction".toList (direction.getD "backward".toList) directionChoices
        >>= fun _ => requireNonnegative "--budget-nodes".toList (orDefault n 100) >>= fun _ =>
      requireNonnegative "--budget-depth".toList (orDefault depth 12) >>= fun _ =>
      .ok (.slice handle (direction.getD "backward".toList)
        (split (relations.getD "operand,control".toList) ',') (orDefault n 100)
        (orDefault depth 12)) := by
    simp only [slice, take, bind, Except.bind, hloop]
    rfl
  rw [hrun]
  refine (settles_choice (settles_nonnegative (settles_nonnegative (settles_ok _) _ _) _ _)
    _ _ _).congr ?_
  rw [chosen_getD (by decide), nonNegative_orDefault (by decide),
    nonNegative_orDefault (by decide), and_true]

def graphArgs (direction : Option Arg) (n : Option I64) (format : Option Arg) : List Arg :=
  "--direction".toList :: direction.getD defaultDirection ::
    (integerArgs "--budget-nodes" n defaultBudgetNodes ++
      ["--format".toList, format.getD defaultFormat])

theorem graph_settles (handle : Arg) (direction : Option Arg) (n : Option I64)
    (format : Option Arg) : Settles (graph (handle :: graphArgs direction n format))
      (Chosen direction directionChoices ∧ Chosen format formatChoices ∧ NonNegative n)
      (.graph handle (direction.getD "backward".toList) (orDefault n 100)
        (format.getD "json".toList)) := by
  have hloop : options graphOpts
      (.option (budget "--budget-nodes" fun n o => { o with budget := n }))
      (graphArgs direction n format) ⟨"backward".toList, "json".toList, 100⟩ =
      .ok ⟨direction.getD "backward".toList, format.getD "json".toList, orDefault n 100⟩ := by
    unfold graphArgs
    rw [options_text rfl, options_integer rfl, options_text rfl]
    cases n <;> rfl
  have hrun : graph (handle :: graphArgs direction n format) =
      requireChoice "--direction".toList (direction.getD "backward".toList) directionChoices
        >>= fun _ => requireChoice "--format".toList (format.getD "json".toList) formatChoices
        >>= fun _ => requireNonnegative "--budget-nodes".toList (orDefault n 100) >>= fun _ =>
      .ok (.graph handle (direction.getD "backward".toList) (orDefault n 100)
        (format.getD "json".toList)) := by
    simp only [graph, take, bind, Except.bind, hloop]
    rfl
  rw [hrun]
  refine (settles_choice (settles_choice (settles_nonnegative (settles_ok _) _ _) _ _ _)
    _ _ _).congr ?_
  rw [chosen_getD (by decide), chosen_getD (by decide), nonNegative_orDefault (by decide),
    and_true]

/-! ### The two trace commands -/

/-- The options that the two commands share. -/
def traceArgs (n depth : Option I64) (detail : Option Arg) (sections : Option (List Arg)) :
    List Arg :=
  integerArgs "--budget-nodes" n defaultTraceBudgetNodes ++
    (integerArgs "--budget-depth" depth defaultTraceBudgetDepth ++
      (optional "--detail" detail ++ optional "--include" (sections.map join)))

/-- What is read of them. -/
def traceRead (selector : Arg) (n depth : Option I64) (detail : Option Arg)
    (sections : Option (List Arg)) : TraceOptions :=
  ⟨selector, detail.getD "summary".toList, (sections.map join).getD [], orDefault n 50,
    orDefault depth 8⟩

theorem traceChecks_settles {c : ServiceCall} (selector : Arg) (n depth : Option I64)
    (detail : Option Arg) (sections : Option (List Arg)) :
    Settles (traceChecks (traceRead selector n depth detail sections) >>= fun _ => .ok c)
      (NonNegative n ∧ NonNegative depth ∧ Chosen detail detailChoices) c := by
  have hchecks := settles_nonnegative (settles_nonnegative (settles_choice (settles_ok c)
    "--detail".toList (detail.getD "summary".toList) detailChoices)
    "--budget-depth".toList (orDefault depth 8)) "--budget-nodes".toList (orDefault n 50)
  rw [nonNegative_orDefault (by decide), nonNegative_orDefault (by decide),
    chosen_getD (by decide), and_true] at hchecks
  simpa [traceChecks, traceRead, bind_assoc] using hchecks

theorem read_sections {sections : Option (List Arg)}
    (h : ∀ a ∈ sections.getD [], a ≠ [] ∧ ',' ∉ a) :
    sectionsOf ((sections.map join).getD []) = sections.getD [] := by
  cases sections with
  | none => rfl
  | some parts => exact sectionsOf_join h

theorem traceStores_settles (handle : Arg) (n depth : Option I64) (detail : Option Arg)
    (sections : Option (List Arg)) (h : ∀ a ∈ sections.getD [], a ≠ [] ∧ ',' ∉ a) :
    Settles (traceStores (handle :: traceArgs n depth detail sections))
      (NonNegative n ∧ NonNegative depth ∧ Chosen detail detailChoices)
      (.traceStores handle (orDefault n 50) (orDefault depth 8) (detail.getD "summary".toList)
        (sections.getD [])) := by
  have hloop : options traceStoresOpts (.unknown "trace-stores".toList)
      (traceArgs n depth detail sections) traceDefaults =
      .ok (traceRead "all".toList n depth detail sections) := by
    unfold traceArgs
    rw [options_integer rfl, options_integer rfl, options_optional rfl,
      ← List.append_nil (optional "--include" _), options_optional rfl]
    cases n <;> cases depth <;> cases detail <;> cases sections <;> rfl
  have hrun : traceStores (handle :: traceArgs n depth detail sections) =
      traceChecks (traceRead "all".toList n depth detail sections) >>= fun _ =>
        .ok (.traceStores handle (orDefault n 50) (orDefault depth 8)
          (detail.getD "summary".toList) (sections.getD [])) := by
    rw [← read_sections h]
    simp only [traceStores, take, bind, Except.bind, hloop]
    rfl
  rw [hrun]
  exact traceChecks_settles _ _ _ _ _

theorem traceReturn_settles (handle selector : Arg) (n depth : Option I64) (detail : Option Arg)
    (sections : Option (List Arg)) (h : ∀ a ∈ sections.getD [], a ≠ [] ∧ ',' ∉ a) :
    Settles (traceReturn (handle :: "--return".toList :: selector ::
        traceArgs n depth detail sections))
      (NonNegative n ∧ NonNegative depth ∧ Chosen detail detailChoices)
      (.traceReturn handle selector (orDefault n 50) (orDefault depth 8)
        (detail.getD "summary".toList) (sections.getD [])) := by
  have hloop : options traceReturnOpts (.unknown "trace-return".toList)
      ("--return".toList :: selector :: traceArgs n depth detail sections) traceDefaults =
      .ok (traceRead selector n depth detail sections) := by
    unfold traceArgs
    rw [options_text rfl, options_integer rfl, options_integer rfl, options_optional rfl,
      ← List.append_nil (optional "--include" _), options_optional rfl]
    cases n <;> cases depth <;> cases detail <;> cases sections <;> rfl
  have hrun : traceReturn (handle :: "--return".toList :: selector ::
        traceArgs n depth detail sections) =
      traceChecks (traceRead selector n depth detail sections) >>= fun _ =>
        .ok (.traceReturn handle selector (orDefault n 50) (orDefault depth 8)
          (detail.getD "summary".toList) (sections.getD [])) := by
    rw [← read_sections h]
    simp only [traceReturn, take, bind, Except.bind, hloop]
    rfl
  rw [hrun]
  exact traceChecks_settles _ _ _ _ _

/-! ### The commands without checks -/

theorem handleAlone_settles (call : Arg → ServiceCall) (handle : Arg) :
    Settles (handleAlone call [handle]) True (call handle) := settles_ok _

theorem capabilities_settles (artifact : Option Arg) :
    Settles (capabilities (optional "--artifact" artifact)) True (.capabilities artifact) := by
  have hloop : options [] (.option (text "--artifact" fun value _ => some value))
      (optional "--artifact" artifact) none = .ok artifact := by
    rw [← List.append_nil (optional _ _), options_optional rfl]
    cases artifact <;> rfl
  have hrun : capabilities (optional "--artifact" artifact) = .ok (.capabilities artifact) := by
    simp only [capabilities, bind, Except.bind, hloop]
    rfl
  rw [hrun]
  exact settles_ok _

theorem functions_settles (artifact pattern : Option Arg) :
    Settles (functions (optional "--artifact" artifact ++ optional "--match" pattern)) True
      (.functions artifact pattern) := by
  have hloop : options [text "--artifact" fun value o => { o with artifact := some value }]
      (.option (text "--match" fun value o => { o with pattern := some value }))
      (optional "--artifact" artifact ++ optional "--match" pattern)
      (⟨none, none⟩ : FunctionsOptions) = .ok ⟨artifact, pattern⟩ := by
    rw [options_optional rfl, ← List.append_nil (optional "--match" _), options_optional rfl]
    cases artifact <;> cases pattern <;> rfl
  have hrun : functions (optional "--artifact" artifact ++ optional "--match" pattern) =
      .ok (.functions artifact pattern) := by
    simp only [functions, bind, Except.bind, hloop]
    rfl
  rw [hrun]
  exact settles_ok _

/-! ## 7. The vectors of the tools -/

theorem HandleArgs.resolve_ok {a : HandleArgs} {handle : Arg} (h : a.resolve = .ok handle) :
    handle = a.given ∧ handle ∈ a.supplied := by
  unfold HandleArgs.resolve at h
  unfold HandleArgs.given
  cases hs : a.supplied with
  | nil => simp [hs] at h
  | cons first rest =>
    rw [hs] at h
    simp only at h
    split at h
    · cases h
    · obtain rfl := Except.ok.inj h
      simp

/-- The command of a tool. -/
def Tool.command : Tool → Arg
  | .status => "status".toList
  | .artifacts => "artifacts".toList
  | .capabilities _ => "capabilities".toList
  | .functions _ _ => "functions".toList
  | .show _ _ _ _ => "show".toList
  | .source _ => "source".toList
  | .uses _ _ => "uses".toList
  | .slice _ _ _ _ _ => "slice".toList
  | .guards _ _ => "guards".toList
  | .graph _ _ _ _ => "graph".toList
  | .expand _ => "expand".toList
  | .context _ _ => "context".toList
  | .traceReturn _ _ _ _ _ _ => "trace-return".toList
  | .traceStores _ _ _ _ _ => "trace-stores".toList

/-- **A vector that settles on a tool's call**: its command, and arguments that the command's
    branch reads as meant. -/
def Encodes (t : Tool) (argv : List Arg) : Prop :=
  ∃ c args, findCommand t.command = some c ∧ argv = t.command :: args ∧
    Settles (c.parse args) t.Admissible t.call

/-- The entity tools. -/
theorem resolve_bind {α : Type} {entity : HandleArgs} {f : Arg → Except InvalidParams α} {a : α}
    (h : (entity.resolve >>= f) = .ok a) :
    entity.given ∈ entity.supplied ∧ f entity.given = .ok a := by
  cases hr : entity.resolve with
  | error e => simp [hr, bind, Except.bind] at h
  | ok handle =>
    obtain ⟨rfl, hmem⟩ := HandleArgs.resolve_ok hr
    simp only [hr, bind, Except.bind] at h
    exact ⟨hmem, h⟩

theorem argv_encodes {t : Tool} {argv : List Arg} (hargv : t.argv = .ok argv)
    (hsections : ∀ a ∈ t.sections, a ≠ [] ∧ ',' ∉ a) : Encodes t argv := by
  cases t with
  | status =>
    obtain rfl := Except.ok.inj hargv
    exact ⟨_, [], rfl, rfl, settles_ok _⟩
  | artifacts =>
    obtain rfl := Except.ok.inj hargv
    exact ⟨_, [], rfl, rfl, settles_ok _⟩
  | capabilities artifact =>
    obtain rfl := Except.ok.inj hargv
    exact ⟨_, _, rfl, pushOpt_eq _ _ _, capabilities_settles artifact⟩
  | functions artifact pattern =>
    obtain rfl := Except.ok.inj hargv
    refine ⟨_, _, rfl, ?_, functions_settles artifact pattern⟩
    rw [pushOpt_eq, pushOpt_eq]
    rfl
  | «show» entity view kind n =>
    obtain ⟨_, h⟩ := resolve_bind hargv
    obtain rfl := Except.ok.inj h
    refine ⟨_, _, rfl, ?_, show_settles entity.given view kind n⟩
    rw [pushOpt_eq, pushOpt_eq, List.append_assoc, List.append_assoc]
    rfl
  | source entity =>
    obtain ⟨_, h⟩ := resolve_bind hargv
    obtain rfl := Except.ok.inj h
    exact ⟨_, _, rfl, rfl, handleAlone_settles _ _⟩
  | uses entity n =>
    obtain ⟨_, h⟩ := resolve_bind hargv
    obtain rfl := Except.ok.inj h
    exact ⟨_, _, rfl, rfl, handleBudget_settles _ _ _⟩
  | slice entity direction relations n depth =>
    obtain ⟨_, h⟩ := resolve_bind hargv
    obtain rfl := Except.ok.inj h
    exact ⟨_, _, rfl, rfl, slice_settles entity.given direction relations n depth⟩
  | guards entity n =>
    obtain ⟨_, h⟩ := resolve_bind hargv
    obtain rfl := Except.ok.inj h
    exact ⟨_, _, rfl, rfl, handleBudget_settles _ _ _⟩
  | graph entity direction n format =>
    obtain ⟨_, h⟩ := resolve_bind hargv
    obtain rfl := Except.ok.inj h
    exact ⟨_, _, rfl, rfl, graph_settles entity.given direction n format⟩
  | expand entity =>
    obtain ⟨_, h⟩ := resolve_bind hargv
    obtain rfl := Except.ok.inj h
    exact ⟨_, _, rfl, rfl, handleAlone_settles _ _⟩
  | context entity n =>
    obtain ⟨_, h⟩ := resolve_bind hargv
    obtain rfl := Except.ok.inj h
    exact ⟨_, _, rfl, rfl, handleBudget_settles _ _ _⟩
  | traceReturn entity selector n depth detail sections =>
    obtain ⟨_, h⟩ := resolve_bind hargv
    obtain rfl := Except.ok.inj h
    refine ⟨_, _, rfl, ?_, traceReturn_settles entity.given (selector.getD "all".toList) n depth detail
      sections hsections⟩
    unfold traceTail
    rw [pushOpt_eq, pushOpt_eq, List.append_assoc, List.append_assoc, List.append_assoc]
    rfl
  | traceStores entity n depth detail sections =>
    obtain ⟨_, h⟩ := resolve_bind hargv
    obtain rfl := Except.ok.inj h
    refine ⟨_, _, rfl, ?_, traceStores_settles entity.given n depth detail sections hsections⟩
    unfold traceTail
    rw [pushOpt_eq, pushOpt_eq, List.append_assoc, List.append_assoc, List.append_assoc]
    rfl

/-! ### Texts that can be passed -/

/-- No text of a list has a NUL in it. -/
def NulFree (l : List Arg) : Prop := ∀ a ∈ l, '\x00' ∉ a

theorem nulFree_nil : NulFree [] := fun _ h => by cases h

theorem NulFree.cons {a : Arg} {l : List Arg} (ha : '\x00' ∉ a) (hl : NulFree l) :
    NulFree (a :: l) := by
  intro x hx
  rcases List.mem_cons.mp hx with hx | hx
  · rwa [hx]
  · exact hl x hx

theorem NulFree.append {l m : List Arg} (hl : NulFree l) (hm : NulFree m) : NulFree (l ++ m) := by
  intro x hx
  rcases List.mem_append.mp hx with hx | hx
  · exact hl x hx
  · exact hm x hx

theorem NulFree.left {l m : List Arg} (h : NulFree (l ++ m)) : NulFree l := fun x hx =>
  h x (List.mem_append_left m hx)

theorem NulFree.right {l m : List Arg} (h : NulFree (l ++ m)) : NulFree m := fun x hx =>
  h x (List.mem_append_right l hx)

theorem NulFree.getD {value : Option Arg} (h : NulFree value.toList) {default : Arg}
    (hd : '\x00' ∉ default) : '\x00' ∉ value.getD default := by
  cases value with
  | none => exact hd
  | some v => exact h v (by simp)

theorem NulFree.pushOpt {args : List Arg} (ha : NulFree args) {flag : String}
    (hf : '\x00' ∉ flag.toList) {value : Option Arg} (h : NulFree value.toList) :
    NulFree (pushOpt args flag value) := by
  cases value with
  | none => exact ha
  | some v => exact ha.append ((nulFree_nil.cons (h v (by simp))).cons hf)

theorem nul_decimal (n : Int) : '\x00' ∉ decimal n := by
  have hdigits : '\x00' ∉ Nat.toDigits 10 n.natAbs := by
    intro h
    exact absurd (toDigits_isDigit _ h) (by decide)
  unfold decimal
  by_cases hneg : n < 0
  · simp [hneg, hdigits]
  · simp [hneg, hdigits]

theorem nulFree_integer {flag : String} (hf : '\x00' ∉ flag.toList) (n : Option I64)
    (default : I64) : NulFree (integerArgs flag n default) :=
  (nulFree_nil.cons (nul_decimal _)).cons hf

theorem nul_join {parts : List Arg} (h : NulFree parts) : '\x00' ∉ join parts := by
  induction parts with
  | nil => simp [join]
  | cons part rest ih =>
    have hpart := h part List.mem_cons_self
    have hrest : NulFree rest := fun x hx => h x (List.mem_cons_of_mem _ hx)
    cases rest with
    | nil => simpa [join] using hpart
    | cons next rest =>
      have hjoin := ih hrest
      unfold join at hjoin ⊢
      rw [List.intercalate_cons_cons]
      simpa [hpart] using hjoin

theorem nulFree_sections {sections : Option (List Arg)} (h : NulFree (sections.getD [])) :
    NulFree (sections.map join).toList := by
  cases sections with
  | none => exact nulFree_nil
  | some parts => exact nulFree_nil.cons (nul_join h)

theorem nulFree_traceTail {detail : Option Arg} {sections : Option (List Arg)} {argv : List Arg}
    (ha : NulFree argv) (hd : NulFree detail.toList) (hs : NulFree (sections.getD [])) :
    NulFree (traceTail detail sections argv) :=
  (ha.pushOpt (by decide) hd).pushOpt (by decide) (nulFree_sections hs)

theorem nulFree_budget {command : String} (hc : '\x00' ∉ command.toList) {entity : HandleArgs}
    {n : Option I64} {argv : List Arg} (h : NulFree entity.supplied)
    (hargv : budgetArgv command entity n = .ok argv) : NulFree argv := by
  obtain ⟨hmem, hbody⟩ := resolve_bind hargv
  obtain rfl := Except.ok.inj hbody
  exact ((nulFree_integer (by decide) _ _).cons (h _ hmem)).cons hc

/-- **A vector of passable texts is passable.** -/
theorem argv_nulFree {t : Tool} {argv : List Arg} (hargv : t.argv = .ok argv)
    (h : NulFree t.texts) : NulFree argv := by
  cases t with
  | status =>
    obtain rfl := Except.ok.inj hargv
    exact nulFree_nil.cons (by decide)
  | artifacts =>
    obtain rfl := Except.ok.inj hargv
    exact nulFree_nil.cons (by decide)
  | capabilities artifact =>
    obtain rfl := Except.ok.inj hargv
    exact (nulFree_nil.cons (by decide)).pushOpt (by decide) h
  | functions artifact pattern =>
    obtain rfl := Except.ok.inj hargv
    exact ((nulFree_nil.cons (by decide)).pushOpt (by decide) h.left).pushOpt (by decide) h.right
  | «show» entity view kind n =>
    obtain ⟨hmem, hbody⟩ := resolve_bind hargv
    obtain rfl := Except.ok.inj hbody
    have hhead : NulFree ["show".toList, entity.given] :=
      (nulFree_nil.cons (h.left.left _ hmem)).cons (by decide)
    exact ((hhead.pushOpt (by decide) h.left.right).pushOpt (by decide) h.right).append
      (nulFree_integer (by decide) _ _)
  | source entity =>
    obtain ⟨hmem, hbody⟩ := resolve_bind hargv
    obtain rfl := Except.ok.inj hbody
    exact (nulFree_nil.cons (h _ hmem)).cons (by decide)
  | uses entity n => exact nulFree_budget (by decide) h hargv
  | slice entity direction relations n depth =>
    obtain ⟨hmem, hbody⟩ := resolve_bind hargv
    obtain rfl := Except.ok.inj hbody
    have hhead : NulFree ["slice".toList, entity.given, "--direction".toList,
        direction.getD defaultDirection, "--relations".toList,
        relations.getD defaultRelations] :=
      (((((nulFree_nil.cons (h.right.getD (by decide))).cons (by decide)).cons
        (h.left.right.getD (by decide))).cons (by decide)).cons (h.left.left _ hmem)).cons
        (by decide)
    exact (hhead.append (nulFree_integer (by decide) _ _)).append
      (nulFree_integer (by decide) _ _)
  | guards entity n => exact nulFree_budget (by decide) h hargv
  | graph entity direction n format =>
    obtain ⟨hmem, hbody⟩ := resolve_bind hargv
    obtain rfl := Except.ok.inj hbody
    have hhead : NulFree ["graph".toList, entity.given, "--direction".toList,
        direction.getD defaultDirection] :=
      (((nulFree_nil.cons (h.left.right.getD (by decide))).cons (by decide)).cons
        (h.left.left _ hmem)).cons (by decide)
    exact (hhead.append (nulFree_integer (by decide) _ _)).append
      ((nulFree_nil.cons (h.right.getD (by decide))).cons (by decide))
  | expand entity =>
    obtain ⟨hmem, hbody⟩ := resolve_bind hargv
    obtain rfl := Except.ok.inj hbody
    exact (nulFree_nil.cons (h _ hmem)).cons (by decide)
  | context entity n => exact nulFree_budget (by decide) h hargv
  | traceReturn entity selector n depth detail sections =>
    obtain ⟨hmem, hbody⟩ := resolve_bind hargv
    obtain rfl := Except.ok.inj hbody
    have hhead : NulFree ["trace-return".toList, entity.given, "--return".toList,
        selector.getD "all".toList] :=
      (((nulFree_nil.cons (h.left.left.right.getD (by decide))).cons (by decide)).cons
        (h.left.left.left _ hmem)).cons (by decide)
    exact nulFree_traceTail ((hhead.append (nulFree_integer (by decide) _ _)).append
      (nulFree_integer (by decide) _ _)) h.left.right h.right
  | traceStores entity n depth detail sections =>
    obtain ⟨hmem, hbody⟩ := resolve_bind hargv
    obtain rfl := Except.ok.inj hbody
    have hhead : NulFree ["trace-stores".toList, entity.given] :=
      (nulFree_nil.cons (h.left.left _ hmem)).cons (by decide)
    exact nulFree_traceTail ((hhead.append (nulFree_integer (by decide) _ _)).append
      (nulFree_integer (by decide) _ _)) h.left.right h.right

theorem cString_nulFree {l : List Arg} (h : NulFree l) : l.map cString = l := by
  have hone : ∀ a ∈ l, cString a = a := by
    intro a ha
    refine List.takeWhile_eq_self_iff.mpr fun c hc => ?_
    simpa using fun he : c = '\x00' => h a ha (he ▸ hc)
  exact (List.map_congr_left hone).trans (List.map_id' l)

/-! ## 8. The process -/

/-- **Behind the state directory** the service is made for it, and the command is dispatched. -/
theorem run_processArgs {absolute : Arg → Bool} (env : Option Arg) {stateDir name : Arg}
    {args : List Arg} (hfree : NulFree (processArgs stateDir (name :: args)))
    (hname : isLong name = false) (habsolute : absolute stateDir = true) :
    run absolute env (processArgs stateDir (name :: args)) =
      some (request stateDir name args) := by
  have hdir : ∀ before, serviceDir before (processArgs stateDir (name :: args)) = some stateDir := by
    intro before
    show serviceDir stateDir (name :: args) = some stateDir
    cases args <;> simp only [serviceDir, hname, Bool.false_eq_true, if_false]
  have hasked : ∀ before, globals before (processArgs stateDir (name :: args)) =
      request stateDir name args := by
    intro before
    show globals stateDir (name :: args) = request stateDir name args
    cases args <;> simp only [globals, hname, Bool.false_eq_true, if_false]
  unfold run asked
  rw [cString_nulFree hfree, hdir, hasked]
  exact if_pos habsolute

theorem command_short (t : Tool) : isLong t.command = false := by
  cases t <;> rfl

/-- **The command line makes the call that a tool means.** In a state directory that the
    constructor of the service takes, it makes exactly that call where the budgets are not negative
    and the enumerated values are valid, and otherwise the program refuses the arguments and exits
    with code 2. -/
theorem tool_runs {t : Tool} {argv : List Arg} (hargv : t.argv = .ok argv) (hplain : t.Plain)
    {stateDir : Arg} (hdir : '\x00' ∉ stateDir) {absolute : Arg → Bool}
    (habsolute : absolute stateDir = true) (env : Option Arg) :
    (t.Admissible →
      run absolute env (processArgs stateDir argv) = some (.call stateDir t.command t.call)) ∧
    (¬ t.Admissible →
      (∃ message, run absolute env (processArgs stateDir argv) =
        some (.refused (some t.command) message)) ∧
      ∀ what service, (main absolute what service env (processArgs stateDir argv)).code = 2) := by
  obtain ⟨c, args, hc, rfl, hsettles⟩ := argv_encodes hargv hplain.sections
  have hfree : NulFree (processArgs stateDir (t.command :: args)) :=
    ((argv_nulFree hargv hplain.texts).cons hdir).cons (by decide)
  have hrun := run_processArgs env hfree (command_short t) habsolute
  have hdispatch : dispatch t.command args = c.parse args := by
    simp [dispatch, hc]
  constructor
  · intro hadm
    rw [hrun, request, hdispatch, hsettles.1 hadm]
  · intro hno
    obtain ⟨message, hmessage⟩ := hsettles.2 hno
    have hrefused : run absolute env (processArgs stateDir (t.command :: args)) =
        some (.refused (some t.command) message) := by
      rw [hrun, request, hdispatch, hmessage]
    refine ⟨⟨message, hrefused⟩, fun what service => ?_⟩
    simp [main, hrefused, failed, Throw.code]

/-- A handle that looks like an option. -/
def optionLike : Tool :=
  .slice ⟨some "--direction=x".toList, none, none⟩ none none (some ⟨7, by decide⟩) none

/-- `std::filesystem::absolute` throws on the empty path only. -/
theorem tool_runs_sample :
    run (fun dir => dir ≠ []) none (processArgs ".irez".toList (["slice", "--direction=x",
      "--direction", "backward", "--relations", "operand,control", "--budget-nodes", "7",
      "--budget-depth", "12"].map String.toList)) =
      some (.call ".irez".toList "slice".toList (.slice "--direction=x".toList "backward".toList
        ["operand".toList, "control".toList] 7 12)) := by
  have hplain : optionLike.Plain := by
    constructor
    · decide
    · intro a ha
      cases ha
  have hadm : optionLike.Admissible := by
    refine ⟨?_, ?_, ?_⟩
    · intro v hv
      cases hv
    · intro i hi
      obtain rfl := Option.some.inj hi
      decide
    · intro i hi
      cases hi
  exact (tool_runs (t := optionLike) rfl hplain (by decide) (by decide) none).1 hadm

end Irez.Cli
