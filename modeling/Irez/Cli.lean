/-
  File:      Irez/Cli.lean
  Subject:   The command line of `irez` (src/cli_main.cpp).

  An argument is a list of characters. A command reads its arguments from the front: first those
  it asks for by position, then options in a loop that looks at one argument, picks the option it
  is for and takes the value. The service is a parameter.

  * `Args` -- `take`, `optionValue`, `integer` and the option loop;
  * `ServiceCall` -- the methods of the service that the commands call;
  * `dispatch` -- one definition for each command;
  * `run`, `main` -- the program with the constructor of its service, up to its exit code and what
    it prints.
-/
import Irez.Basis.Members
import Irez.Contract

open Irez.Basis.Json (JsonValue)

namespace Irez.Cli

/-! ## 1. Arguments -/

/-- An argument, as a text. -/
abbrev Arg := List Char

/-- How the reading of arguments ends: with `usage_error`, or with an `IrezError` of code 2. -/
inductive Stop where
  | usage (message : Arg)
  | error (message : Arg)
  deriving DecidableEq, Repr

abbrev Parse := Except Stop

def missing : Stop := .error "missing argument".toList

/-- `take`. -/
def take : List Arg → Parse (Arg × List Arg)
  | [] => .error missing
  | a :: rest => .ok (a, rest)

/-- The argument begins with `--name=`. -/
def withEquals (name a : Arg) : Bool := (name ++ ['=']).isPrefixOf a

/-- The argument is for the option. -/
def isFor (name a : Arg) : Bool := a = name || withEquals name a

def expected (name a : Arg) : Stop :=
  .error ("expected ".toList ++ name ++ ", got ".toList ++ a)

/-- `option_value`. -/
def optionValue (name : Arg) : List Arg → Parse (Arg × List Arg)
  | [] => .error missing
  | a :: rest =>
    if withEquals name a then .ok (a.drop (name.length + 1), rest)
    else if a ≠ name then .error (expected name a)
    else take rest

/-! ### Integers -/

/-- `std::isspace`. -/
def isSpace (c : Char) : Bool :=
  c = ' ' || c = '\t' || c = '\n' || c = '\x0b' || c = '\x0c' || c = '\r'

/-- A value of `int64_t`. -/
def IsI64 (n : Int) : Prop := -9223372036854775808 ≤ n ∧ n < 9223372036854775808

instance (n : Int) : Decidable (IsI64 n) := inferInstanceAs (Decidable (_ ∧ _))

/-- The digits at the front, with the sign before them. -/
def signed (negative : Bool) (text : Arg) : Option Int :=
  let digits := text.takeWhile Char.isDigit
  let n := Nat.ofDigitChars 10 digits 0
  let value : Int := if negative then -n else n
  if digits = [] then none else if IsI64 value then some value else none

/-- `std::stoll`: what follows the digits is not read. -/
def stoll (text : Arg) : Option Int :=
  match text.dropWhile isSpace with
  | '-' :: rest => signed true rest
  | '+' :: rest => signed false rest
  | rest => signed false rest

/-- The value of an option that is an integer. -/
def integer (name text : Arg) : Parse Int :=
  match stoll text with
  | some n => .ok n
  | none => .error (.error ("invalid integer for ".toList ++ name ++ ": ".toList ++ text))

/-! ### Checks -/

/-- The loop of `split`, with the part that has been read so far. -/
def splitLoop (delimiter : Char) (current : Arg) : Arg → List Arg
  | [] => [current]
  | c :: rest =>
    if c = delimiter then current :: splitLoop delimiter [] rest
    else splitLoop delimiter (current ++ [c]) rest

def split (text : Arg) (delimiter : Char) : List Arg := splitLoop delimiter [] text

def requireChoice (name value : Arg) (choices : List Arg) : Parse Unit :=
  if value ∈ choices then .ok ()
  else .error (.error ("invalid value for ".toList ++ name ++ ": ".toList ++ value))

def requireNonnegative (name : Arg) (value : Int) : Parse Unit :=
  if value < 0 then .error (.error (name ++ " must be non-negative".toList)) else .ok ()

def requireEnd : List Arg → Parse Unit
  | [] => .ok ()
  | a :: _ => .error (.error ("unexpected argument: ".toList ++ a))

/-! ### Option loops -/

/-- An option of a command, and what its value does to what has been read. -/
structure Opt (σ : Type) where
  name : Arg
  set : Arg → σ → Parse σ

/-- What the last `else` of a loop does: it reads the argument as one more option, or throws. -/
inductive Otherwise (σ : Type) where
  | option (opt : Opt σ)
  | unknown (command : Arg)

/-- The option that an argument is read as. -/
def pick {σ : Type} (opts : List (Opt σ)) (otherwise : Otherwise σ) (a : Arg) :
    Parse (Opt σ) :=
  match opts.find? fun opt => isFor opt.name a with
  | some opt => .ok opt
  | none =>
    match otherwise with
    | .option opt => .ok opt
    | .unknown command =>
      .error (.error ("unknown ".toList ++ command ++ " option: ".toList ++ a))

/-- `while (!args.empty())` over the options of a command. -/
def options {σ : Type} (opts : List (Opt σ)) (otherwise : Otherwise σ) :
    List Arg → σ → Parse σ
  | [], s => .ok s
  | a :: rest, s =>
    match pick opts otherwise a with
    | .error e => .error e
    | .ok opt =>
      if withEquals opt.name a then
        match opt.set (a.drop (opt.name.length + 1)) s with
        | .error e => .error e
        | .ok s' => options opts otherwise rest s'
      else if a ≠ opt.name then .error (expected opt.name a)
      else
        match rest with
        | [] => .error missing
        | value :: rest' =>
          match opt.set value s with
          | .error e => .error e
          | .ok s' => options opts otherwise rest' s'

/-- **The loop reads one option with `option_value`**, and goes on behind it. -/
theorem options_cons {σ : Type} (opts : List (Opt σ)) (otherwise : Otherwise σ) (a : Arg)
    (rest : List Arg) (s : σ) :
    options opts otherwise (a :: rest) s = (do
      let opt ← pick opts otherwise a
      let (value, rest') ← optionValue opt.name (a :: rest)
      let s' ← opt.set value s
      options opts otherwise rest' s') := by
  rw [options]
  cases pick opts otherwise a with
  | error e => rfl
  | ok opt =>
    show _ = optionValue opt.name (a :: rest) >>= fun p =>
      opt.set p.1 s >>= fun s' => options opts otherwise p.2 s'
    unfold optionValue
    by_cases hequals : withEquals opt.name a = true
    · simp only [hequals, if_true]
      show _ = opt.set _ s >>= fun s' => options opts otherwise rest s'
      cases opt.set (a.drop (opt.name.length + 1)) s <;> rfl
    · simp only [hequals, Bool.false_eq_true, if_false]
      by_cases hname : a = opt.name
      · simp only [hname, ne_eq, not_true_eq_false, if_false]
        cases rest with
        | nil => rfl
        | cons value rest' =>
          show _ = opt.set value s >>= fun s' => options opts otherwise rest' s'
          dsimp only
          cases opt.set value s <;> rfl
      · simp only [hname, ne_eq, not_false_eq_true, if_true]
        rfl

/-- An option whose value is kept as it is. -/
def text {σ : Type} (name : String) (set : Arg → σ → σ) : Opt σ :=
  ⟨name.toList, fun value s => .ok (set value s)⟩

/-- An option whose value is an integer. -/
def budget {σ : Type} (name : String) (set : Int → σ → σ) : Opt σ :=
  ⟨name.toList, fun value s => (integer name.toList value).map fun n => set n s⟩

/-! ## 2. The commands -/

/-- The call of the service that a command makes. -/
inductive ServiceCall where
  | init (name : Arg)
  | status
  | backup (destination : Arg)
  | capabilities (artifact : Option Arg)
  | ingest (path index : Arg) (refresh : Bool)
  | reindex (artifact index : Arg)
  | artifacts
  | functions (artifact pattern : Option Arg)
  | materialize (handle : Arg)
  | show (handle view : Arg) (kind : Option Arg) (budget : Int)
  | source (handle : Arg)
  | expand (handle : Arg)
  | uses (handle : Arg) (budget : Int)
  | guards (handle : Arg) (budget : Int)
  | context (handle : Arg) (budget : Int)
  | slice (handle direction : Arg) (relations : List Arg) (budgetNodes budgetDepth : Int)
  | traceReturn (handle selector : Arg) (budgetNodes budgetDepth : Int) (detail : Arg)
      (sections : List Arg)
  | traceStores (handle : Arg) (budgetNodes budgetDepth : Int) (detail : Arg)
      (sections : List Arg)
  | graph (handle direction : Arg) (budget : Int) (format : Arg)
  deriving DecidableEq, Repr

def init (args : List Arg) : Parse ServiceCall := do
  let name ← options [] (.option (text "--name" fun value _ => some value)) args none
  match name with
  | none => .error (.usage "init requires --name".toList)
  | some name => return .init name

def status (args : List Arg) : Parse ServiceCall := do
  requireEnd args
  return .status

def backup (args : List Arg) : Parse ServiceCall := do
  let (destination, rest) ← take args
  requireEnd rest
  return .backup destination

def capabilities (args : List Arg) : Parse ServiceCall := do
  let artifact ← options [] (.option (text "--artifact" fun value _ => some value)) args none
  return .capabilities artifact

def indexChoices : List Arg := ["catalog".toList, "full".toList]

/-- The loop of `ingest`, with its flag. -/
def ingestOptions : List Arg → Arg → Bool → Parse (Arg × Bool)
  | [], index, refresh => .ok (index, refresh)
  | a :: rest, index, refresh =>
    if a = "--refresh".toList then ingestOptions rest index true
    else if withEquals "--index".toList a then
      ingestOptions rest (a.drop "--index=".length) refresh
    else if a ≠ "--index".toList then .error (expected "--index".toList a)
    else
      match rest with
      | [] => .error missing
      | value :: rest' => ingestOptions rest' value refresh

/-- What follows `llvm`. -/
def ingestLlvm (args : List Arg) : Parse ServiceCall := do
  let (path, rest) ← take args
  let (index, refresh) ← ingestOptions rest "catalog".toList false
  requireChoice "--index".toList index indexChoices
  return .ingest path index refresh

def ingest (args : List Arg) : Parse ServiceCall := do
  let (format, rest) ← take args
  if format ≠ "llvm".toList then .error (.usage "ingest requires the llvm subcommand".toList)
  else ingestLlvm rest

def reindex (args : List Arg) : Parse ServiceCall := do
  let (artifact, rest) ← take args
  let index ← options [] (.option (text "--index" fun value _ => value)) rest "full".toList
  requireChoice "--index".toList index indexChoices
  return .reindex artifact index

def artifacts (args : List Arg) : Parse ServiceCall := do
  requireEnd args
  return .artifacts

/-- What `functions` has read of its options. -/
structure FunctionsOptions where
  artifact : Option Arg
  pattern : Option Arg

def functions (args : List Arg) : Parse ServiceCall := do
  let o ← options [text "--artifact" fun value o => { o with artifact := some value }]
    (.option (text "--match" fun value o => { o with pattern := some value })) args
    (⟨none, none⟩ : FunctionsOptions)
  return .functions o.artifact o.pattern

/-- A handle and nothing else. -/
def handleAlone (call : Arg → ServiceCall) (args : List Arg) : Parse ServiceCall := do
  let (handle, rest) ← take args
  requireEnd rest
  return call handle

def materialize (args : List Arg) : Parse ServiceCall := do
  let (entity, rest) ← take args
  if entity ≠ "function".toList then
    .error (.usage "materialize requires the function subcommand".toList)
  else handleAlone .materialize rest

structure ShowOptions where
  view : Arg
  kind : Option Arg
  budget : Int

def showOpts : List (Opt ShowOptions) :=
  [text "--view" fun value o => { o with view := value },
    text "--kind" fun value o => { o with kind := some value },
    budget "--budget-nodes" fun n o => { o with budget := n }]

def viewChoices : List Arg := ["summary".toList, "exact".toList, "children".toList]

def kindChoices : List Arg := ["block".toList, "return".toList, "call".toList]

def «show» (args : List Arg) : Parse ServiceCall := do
  let (handle, rest) ← take args
  let o ← options showOpts (.unknown "show".toList) rest ⟨"summary".toList, none, 100⟩
  requireChoice "--view".toList o.view viewChoices
  o.kind.elim (pure ()) fun kind => requireChoice "--kind".toList kind kindChoices
  requireNonnegative "--budget-nodes".toList o.budget
  return .show handle o.view o.kind o.budget

def source : List Arg → Parse ServiceCall := handleAlone .source

def expand : List Arg → Parse ServiceCall := handleAlone .expand

/-- `uses`, `guards` and `context`: a handle and a budget. -/
def handleBudget (call : Arg → Int → ServiceCall) (args : List Arg) : Parse ServiceCall := do
  let (handle, rest) ← take args
  let n ← options [] (.option (budget "--budget-nodes" fun n _ => n)) rest 100
  requireNonnegative "--budget-nodes".toList n
  return call handle n

def uses : List Arg → Parse ServiceCall := handleBudget .uses

def guards : List Arg → Parse ServiceCall := handleBudget .guards

def context : List Arg → Parse ServiceCall := handleBudget .context

structure SliceOptions where
  direction : Arg
  relations : Arg
  budgetNodes : Int
  budgetDepth : Int

def sliceOpts : List (Opt SliceOptions) :=
  [text "--direction" fun value o => { o with direction := value },
    text "--relations" fun value o => { o with relations := value },
    budget "--budget-nodes" fun n o => { o with budgetNodes := n },
    budget "--budget-depth" fun n o => { o with budgetDepth := n }]

def directionChoices : List Arg := ["backward".toList, "forward".toList]

def slice (args : List Arg) : Parse ServiceCall := do
  let (handle, rest) ← take args
  let o ← options sliceOpts (.unknown "slice".toList) rest
    ⟨"backward".toList, "operand,control".toList, 100, 12⟩
  requireChoice "--direction".toList o.direction directionChoices
  requireNonnegative "--budget-nodes".toList o.budgetNodes
  requireNonnegative "--budget-depth".toList o.budgetDepth
  return .slice handle o.direction (split o.relations ',') o.budgetNodes o.budgetDepth

structure TraceOptions where
  selector : Arg
  detail : Arg
  «include» : Arg
  budgetNodes : Int
  budgetDepth : Int

def traceStoresOpts : List (Opt TraceOptions) :=
  [text "--detail" fun value o => { o with detail := value },
    text "--include" fun value o => { o with «include» := value },
    budget "--budget-nodes" fun n o => { o with budgetNodes := n },
    budget "--budget-depth" fun n o => { o with budgetDepth := n }]

def traceReturnOpts : List (Opt TraceOptions) :=
  text "--return" (fun value o => { o with selector := value }) :: traceStoresOpts

def traceDefaults : TraceOptions := ⟨"all".toList, "summary".toList, [], 50, 8⟩

def detailChoices : List Arg := ["graph".toList, "summary".toList]

/-- The sections of `--include`. -/
def sectionsOf («include» : Arg) : List Arg :=
  if «include» = [] then [] else split «include» ','

/-- What follows the options of the two trace commands. -/
def traceChecks (o : TraceOptions) : Parse Unit := do
  requireNonnegative "--budget-nodes".toList o.budgetNodes
  requireNonnegative "--budget-depth".toList o.budgetDepth
  requireChoice "--detail".toList o.detail detailChoices

def traceReturn (args : List Arg) : Parse ServiceCall := do
  let (handle, rest) ← take args
  let o ← options traceReturnOpts (.unknown "trace-return".toList) rest traceDefaults
  traceChecks o
  return .traceReturn handle o.selector o.budgetNodes o.budgetDepth o.detail
    (sectionsOf o.include)

def traceStores (args : List Arg) : Parse ServiceCall := do
  let (handle, rest) ← take args
  let o ← options traceStoresOpts (.unknown "trace-stores".toList) rest traceDefaults
  traceChecks o
  return .traceStores handle o.budgetNodes o.budgetDepth o.detail (sectionsOf o.include)

structure GraphOptions where
  direction : Arg
  format : Arg
  budget : Int

/-- `--view` is checked and dropped. -/
def graphOpts : List (Opt GraphOptions) :=
  [text "--direction" fun value o => { o with direction := value },
    text "--format" fun value o => { o with format := value },
    ⟨"--view".toList, fun value o =>
      (requireChoice "--view".toList value ["value".toList]).map fun _ => o⟩]

def formatChoices : List Arg := ["json".toList, "exact-ir".toList]

def graph (args : List Arg) : Parse ServiceCall := do
  let (handle, rest) ← take args
  let o ← options graphOpts (.option (budget "--budget-nodes" fun n o => { o with budget := n }))
    rest ⟨"backward".toList, "json".toList, 100⟩
  requireChoice "--direction".toList o.direction directionChoices
  requireChoice "--format".toList o.format formatChoices
  requireNonnegative "--budget-nodes".toList o.budget
  return .graph handle o.direction o.budget o.format

/-! ## 3. The dispatch -/

/-- A command: its name, the line of `command_usage`, and its branch in `run`. -/
structure Command where
  name : Arg
  usage : Arg
  parse : List Arg → Parse ServiceCall

def command (name usage : String) (parse : List Arg → Parse ServiceCall) : Command :=
  ⟨name.toList, usage.toList, parse⟩

def commands : List Command :=
  [command "init" "usage: irez init --name NAME" init,
    command "status" "usage: irez status" status,
    command "backup" "usage: irez backup PATH" backup,
    command "capabilities" "usage: irez capabilities [--artifact ID]" capabilities,
    command "ingest" "usage: irez ingest llvm PATH [--index catalog|full] [--refresh]" ingest,
    command "reindex" "usage: irez reindex ARTIFACT [--index catalog|full]" reindex,
    command "artifacts" "usage: irez artifacts" artifacts,
    command "functions" "usage: irez functions [--artifact ID] [--match REGEX]" functions,
    command "materialize" "usage: irez materialize function HANDLE" materialize,
    command "show" ("usage: irez show HANDLE [--view summary|exact|children] " ++
      "[--kind block|return|call] [--budget-nodes N]") «show»,
    command "source" "usage: irez source HANDLE" source,
    command "uses" "usage: irez uses HANDLE [--budget-nodes N]" uses,
    command "slice" ("usage: irez slice HANDLE [--direction backward|forward] " ++
      "[--relations LIST] [--budget-nodes N] [--budget-depth N]") slice,
    command "graph" ("usage: irez graph HANDLE [--view value] " ++
      "[--direction backward|forward] [--budget-nodes N] [--format json|exact-ir]") graph,
    command "guards" "usage: irez guards HANDLE [--budget-nodes N]" guards,
    command "expand" "usage: irez expand HANDLE" expand,
    command "context" "usage: irez context HANDLE [--budget-nodes N]" context,
    command "trace-return" ("usage: irez trace-return FUNCTION [--return all|HANDLE] " ++
      "[--budget-nodes N] [--budget-depth N] [--detail summary|graph] [--include LIST]")
      traceReturn,
    command "trace-stores" ("usage: irez trace-stores FUNCTION [--budget-nodes N] " ++
      "[--budget-depth N] [--detail summary|graph] [--include LIST]") traceStores]

def findCommand (name : Arg) : Option Command := commands.find? (·.name = name)

/-- The chain of comparisons in `run`. -/
def dispatch (name : Arg) (args : List Arg) : Parse ServiceCall :=
  match findCommand name with
  | some c => c.parse args
  | none => .error (.usage ("unknown command: ".toList ++ name))

/-! ## 4. The program -/

/-- What the arguments ask for. -/
inductive Request where
  | help
  | usage (message : Arg)
  | refused (name : Option Arg) (message : Arg)
  | call (stateDir name : Arg) (c : ServiceCall)
  deriving DecidableEq, Repr

def stateDirName : Arg := "--state-dir".toList

def isLong (a : Arg) : Bool := ['-', '-'].isPrefixOf a

/-- What a command's branch asks for. -/
def request (stateDir name : Arg) (args : List Arg) : Request :=
  match dispatch name args with
  | .ok c => .call stateDir name c
  | .error (.usage message) => .usage message
  | .error (.error message) => .refused (some name) message

/-- The global options and the command behind them. -/
def globals (stateDir : Arg) : List Arg → Request
  | [] => .usage "missing command".toList
  | a :: rest =>
    if isLong a then
      if withEquals stateDirName a then globals (a.drop (stateDirName.length + 1)) rest
      else if a = stateDirName then
        match rest with
        | [] => .refused none "missing argument".toList
        | dir :: rest' => globals dir rest'
      else if a = "--help".toList then .help
      else .usage ("unknown global option: ".toList ++ a)
    else request stateDir a rest

/-- `argv[i]`: what stands before the first NUL. -/
def cString (a : Arg) : Arg := a.takeWhile (· ≠ '\x00')

/-- What the arguments ask for; `env` is `IREZ_STATE_DIR`. -/
def asked (env : Option Arg) (argv : List Arg) : Request :=
  globals (env.getD ".irez".toList) (argv.map cString)

/-- The directory that the service is made for, where `run` comes so far: the name of the command
    is there, and has not been looked at. -/
def serviceDir (stateDir : Arg) : List Arg → Option Arg
  | [] => none
  | a :: rest =>
    if isLong a then
      if withEquals stateDirName a then serviceDir (a.drop (stateDirName.length + 1)) rest
      else if a = stateDirName then
        match rest with
        | [] => none
        | dir :: rest' => serviceDir dir rest'
      else none
    else some stateDir

/-- `run` up to the call of the service: `absolute` are the texts that `std::filesystem::absolute`
    makes a path of. For others the constructor of the service throws, and so does `run`. -/
def run (absolute : Arg → Bool) (env : Option Arg) (argv : List Arg) : Option Request :=
  match serviceDir (env.getD ".irez".toList) (argv.map cString) with
  | none => some (asked env argv)
  | some dir => if absolute dir then some (asked env argv) else none

/-- What the service throws: an `IrezError` of one of the forms in the sources of the service, the
    store and the adapter, or some other exception. -/
inductive Throw where
  | argument (message : Arg)
  | state (message : Arg)
  | notFound (message : Arg)
  | adapterFailure (message : Arg)
  | unsupported (message : Arg)
  | busy (message : Arg)
  | foreign (what : Arg)
  deriving DecidableEq, Repr

/-- The exit code and the error kind. -/
def Throw.code : Throw → Nat × String
  | .argument _ => (2, "state_error")
  | .state _ => (5, "state_error")
  | .notFound _ => (3, "not_found")
  | .adapterFailure _ => (4, "adapter_failure")
  | .unsupported _ => (6, "unsupported")
  | .busy _ => (7, "analysis_in_progress")
  | .foreign _ => (5, "internal_error")

def Throw.what : Throw → Arg
  | .argument m | .state m | .notFound m | .adapterFailure m | .unsupported m | .busy m
  | .foreign m => m

/-- What is printed on a stream: nothing, a text, a JSON value and a line end, or a text and such a
    value behind it. -/
inductive Output where
  | nothing
  | text (chars : Arg)
  | json (v : JsonValue)
  | mixed (chars : Arg) (v : JsonValue)

/-- The same behind a text. -/
def Output.behind (chars : Arg) (output : Output) : Output :=
  if chars = [] then output
  else
    match output with
    | .nothing => .text chars
    | .text more => .text (chars ++ more)
    | .json v => .mixed chars v
    | .mixed more v => .mixed (chars ++ more) v

structure Exit where
  code : Nat
  stdout : Output
  stderr : Output

/-- With a text that has been printed on stderr before. -/
def Exit.behind (chars : Arg) (e : Exit) : Exit := { e with stderr := e.stderr.behind chars }

def number (n : Nat) : JsonValue := .number (Nat.toDigits 10 n)

def kApiSchemaVersion : Nat := 1

/-- The line of `command_usage` that the dispatcher attaches to an error of code 2. -/
def usageLine (name : Option Arg) (code : Nat) : Option Arg :=
  if code = 2 then (name.bind findCommand).map (·.usage) else none

/-- The error object that `main` prints. -/
def errorObject (t : Throw) (usage : Option Arg) : JsonValue :=
  .object ([("api_schema_version".toList, number kApiSchemaVersion),
    ("error".toList, .string t.what),
    ("error_kind".toList, .string t.code.2.toList),
    ("exit_code".toList, number t.code.1),
    ("schema_version".toList, number kApiSchemaVersion)] ++
    usage.elim [] fun line => [("usage".toList, .string line)])

/-- The handlers of `main`. -/
def failed (name : Option Arg) (t : Throw) : Exit :=
  ⟨t.code.1, .nothing, .json (errorObject t (usageLine name t.code.1))⟩

def kUsageLines : List String := [
  "usage: irez [--state-dir DIR] COMMAND ...",
  "",
  "commands:",
  "  init --name NAME",
  "  status",
  "  backup PATH",
  "  capabilities [--artifact ID]",
  "  ingest llvm PATH [--index catalog|full] [--refresh]",
  "  reindex ARTIFACT [--index catalog|full]",
  "  artifacts",
  "  functions [--artifact ID] [--match REGEX]",
  "  materialize function HANDLE",
  "  show HANDLE [--view summary|exact|children]",
  "              [--kind block|return|call] [--budget-nodes N]",
  "  source HANDLE",
  "  uses HANDLE [--budget-nodes N]",
  "  slice HANDLE [--direction backward|forward] [--relations LIST]",
  "               [--budget-nodes N] [--budget-depth N]",
  "  graph HANDLE [--view value] [--direction backward|forward]",
  "               [--budget-nodes N] [--format json|exact-ir]",
  "  guards HANDLE [--budget-nodes N]",
  "  expand HANDLE",
  "  context HANDLE [--budget-nodes N]",
  "  trace-return FUNCTION [--return all|HANDLE]",
  "              [--budget-nodes N] [--budget-depth N]",
  "              [--detail summary|graph] " ++
    "[--include chain,calls,source,nodes,relations,boundaries,flags]",
  "  trace-stores FUNCTION [--budget-nodes N] [--budget-depth N]",
  "              [--detail summary|graph] " ++
    "[--include chain,calls,source,nodes,relations,boundaries,flags]",
  "",
  "global options must precede the command. The state directory defaults to",
  "IREZ_STATE_DIR, or .irez when unset."]

/-- The text of `usage_error` and `--help`. -/
def kUsage : Arg := kUsageLines.flatMap fun line => line.toList ++ ['\n']

/-- `usage_error`. -/
def usageError (message : Arg) : Exit :=
  ⟨2, .nothing, .text ((if message = [] then [] else "error: ".toList ++ message ++ ['\n']) ++
    kUsage)⟩

/-- What a call of the service leaves: the text that LLVM has printed on stderr, and a response or
    an exception. -/
structure Answer where
  diagnostics : Arg
  result : Except Throw JsonValue

/-- The service as the program sees it: an answer for a state directory and a call. -/
abbrev Service := Arg → ServiceCall → Answer

/-- What `main` makes of an answer. -/
def Answer.exit (name : Arg) (answer : Answer) : Exit :=
  match answer.result with
  | .ok response => Exit.behind answer.diagnostics ⟨0, .json response, .nothing⟩
  | .error t => Exit.behind answer.diagnostics (failed (some name) t)

/-- `what` is the text of the exception of the constructor, which is none of `IrezError`. -/
def main (absolute : Arg → Bool) (what : Arg) (service : Service) (env : Option Arg)
    (argv : List Arg) : Exit :=
  match run absolute env argv with
  | none => failed none (.foreign what)
  | some .help => ⟨0, .text kUsage, .nothing⟩
  | some (.usage message) => usageError message
  | some (.refused name message) => failed name (.argument message)
  | some (.call stateDir name c) => (service stateDir c).exit name

end Irez.Cli
