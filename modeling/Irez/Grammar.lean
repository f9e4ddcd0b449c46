/-
  File:      Irez/Grammar.lean
  Subject:   The grammar of the command line of `irez` (src/cli_main.cpp 168-396, docs/CLI.md 7-43).

  The grammar says what is written: options for the state directory, a command, its words, its
  operand, its options in any order. What the program accepts differs from it in the values: the
  program reads a number from the front of a budget's text, and checks a value only where it is
  the last of its option.

  * `Form`, `forms` -- the commands, and the call that each of them makes;
  * `Reads` -- a command line, read;
  * `Strict`, `Lax` -- the values of the grammar, and those that the program lets pass;
  * `Accepted` -- the grammar, with the call of a command line.
-/
import Irez.Basis.Options
import Irez.Cli

open Irez.Basis.Options

namespace Irez.Cli

/-! ## 1. The grammar -/

/-- What an option takes; `each` where the program checks every value, and not the last alone. -/
inductive Kind where
  | text
  | choice (choices : List Arg) (each : Bool)
  | budget
  | flag
  deriving DecidableEq, Repr

/-- The values that were written. -/
structure Values where
  text : Arg → Option Arg
  number : Arg → Option Int
  flag : Arg → Bool

/-- **The form of a command**: the words behind its name, how many operands follow, its options,
    those that must be there, and the call of the service. -/
structure Form where
  words : List Arg
  operands : Nat
  opts : List (Arg × Kind)
  required : List Arg
  call : List Arg → Values → ServiceCall

namespace Form

/-- What the option of a name takes. -/
def kind (form : Form) (name : Arg) : Option Kind := (form.opts.find? (·.1 = name)).map (·.2)

def Valued (form : Form) (name : Arg) : Prop := ∃ k, form.kind name = some k ∧ k ≠ .flag

def Flag (form : Form) (name : Arg) : Prop := form.kind name = some .flag

/-- **What follows the name of the command.** -/
structure Shaped (form : Form) (args operands : List Arg) (items : List Item) : Prop where
  spelled : ∃ rest, args = form.words ++ operands ++ rest ∧ Spelled form.Valued form.Flag items rest
  operands : operands.length = form.operands
  required : ∀ name ∈ form.required, ∃ i ∈ items, i.name = name

end Form

/-! ### Numbers -/

def digitsValue (digits : Arg) : Option Int :=
  if digits ≠ [] ∧ digits.all Char.isDigit then some (Nat.ofDigitChars 10 digits 0) else none

/-- A text that is in full a decimal integer. -/
def decimalValue : Arg → Option Int
  | '-' :: digits => (digitsValue digits).map fun n => -n
  | '+' :: digits => digitsValue digits
  | digits => digitsValue digits

/-- A budget of the grammar. -/
def IsBudget (text : Arg) : Prop := ∃ n, decimalValue text = some n ∧ 0 ≤ n ∧ IsI64 n

def decimalRead (text : Arg) : Int := (decimalValue text).getD 0

def stollRead (text : Arg) : Int := (stoll text).getD 0

/-- The values of options, with the numbers of budgets as `read` reads them. -/
def valuesOf (form : Form) (read : Arg → Int) (items : List Item) : Values where
  text := last items
  number name := if form.kind name = some .budget then (last items name).map read else none
  flag name := items.any (·.name = name)

/-! ### The commands -/

def one (operands : List Arg) : Arg := operands.headD []

def indexKind : Kind := .choice indexChoices false

def directionKind : Kind := .choice directionChoices false

def handleForm (words : List Arg) (call : Arg → ServiceCall) : Form where
  words := words
  operands := 1
  opts := []
  required := []
  call operands _ := call (one operands)

def budgetForm (call : Arg → Int → ServiceCall) : Form where
  words := []
  operands := 1
  opts := [("--budget-nodes".toList, .budget)]
  required := []
  call operands v := call (one operands) ((v.number "--budget-nodes".toList).getD 100)

def bareForm (call : ServiceCall) : Form where
  words := []
  operands := 0
  opts := []
  required := []
  call _ _ := call

def initForm : Form where
  words := []
  operands := 0
  opts := [("--name".toList, .text)]
  required := ["--name".toList]
  call _ v := .init ((v.text "--name".toList).getD [])

def capabilitiesForm : Form where
  words := []
  operands := 0
  opts := [("--artifact".toList, .text)]
  required := []
  call _ v := .capabilities (v.text "--artifact".toList)

def ingestForm : Form where
  words := ["llvm".toList]
  operands := 1
  opts := [("--index".toList, indexKind), ("--refresh".toList, .flag)]
  required := []
  call operands v := .ingest (one operands)
    ((v.text "--index".toList).getD "catalog".toList) (v.flag "--refresh".toList)

def reindexForm : Form where
  words := []
  operands := 1
  opts := [("--index".toList, indexKind)]
  required := []
  call operands v := .reindex (one operands) ((v.text "--index".toList).getD "full".toList)

def functionsForm : Form where
  words := []
  operands := 0
  opts := [("--artifact".toList, .text), ("--match".toList, .text)]
  required := []
  call _ v := .functions (v.text "--artifact".toList) (v.text "--match".toList)

def showForm : Form where
  words := []
  operands := 1
  opts := [("--view".toList, .choice viewChoices false), ("--kind".toList, .choice kindChoices false),
    ("--budget-nodes".toList, .budget)]
  required := []
  call operands v := .show (one operands) ((v.text "--view".toList).getD "summary".toList)
    (v.text "--kind".toList) ((v.number "--budget-nodes".toList).getD 100)

def sliceForm : Form where
  words := []
  operands := 1
  opts := [("--direction".toList, directionKind), ("--relations".toList, .text),
    ("--budget-nodes".toList, .budget), ("--budget-depth".toList, .budget)]
  required := []
  call operands v := .slice (one operands) ((v.text "--direction".toList).getD "backward".toList)
    (split ((v.text "--relations".toList).getD "operand,control".toList) ',')
    ((v.number "--budget-nodes".toList).getD 100) ((v.number "--budget-depth".toList).getD 12)

def traceStoresForm : Form where
  words := []
  operands := 1
  opts := [("--detail".toList, .choice detailChoices false), ("--include".toList, .text),
    ("--budget-nodes".toList, .budget), ("--budget-depth".toList, .budget)]
  required := []
  call operands v := .traceStores (one operands)
    ((v.number "--budget-nodes".toList).getD 50) ((v.number "--budget-depth".toList).getD 8)
    ((v.text "--detail".toList).getD "summary".toList)
    (sectionsOf ((v.text "--include".toList).getD []))

def traceReturnForm : Form where
  words := []
  operands := 1
  opts := ("--return".toList, .text) :: traceStoresForm.opts
  required := []
  call operands v := .traceReturn (one operands) ((v.text "--return".toList).getD "all".toList)
    ((v.number "--budget-nodes".toList).getD 50) ((v.number "--budget-depth".toList).getD 8)
    ((v.text "--detail".toList).getD "summary".toList)
    (sectionsOf ((v.text "--include".toList).getD []))

def graphForm : Form where
  words := []
  operands := 1
  opts := [("--direction".toList, directionKind), ("--format".toList, .choice formatChoices false),
    ("--view".toList, .choice ["value".toList] true), ("--budget-nodes".toList, .budget)]
  required := []
  call operands v := .graph (one operands) ((v.text "--direction".toList).getD "backward".toList)
    ((v.number "--budget-nodes".toList).getD 100) ((v.text "--format".toList).getD "json".toList)

/-- The commands by name. -/
def forms : List (Arg × Form) :=
  [("init".toList, initForm), ("status".toList, bareForm .status),
    ("backup".toList, handleForm [] .backup), ("capabilities".toList, capabilitiesForm),
    ("ingest".toList, ingestForm), ("reindex".toList, reindexForm),
    ("artifacts".toList, bareForm .artifacts), ("functions".toList, functionsForm),
    ("materialize".toList, handleForm ["function".toList] .materialize),
    ("show".toList, showForm), ("source".toList, handleForm [] .source),
    ("uses".toList, budgetForm .uses), ("slice".toList, sliceForm), ("graph".toList, graphForm),
    ("guards".toList, budgetForm .guards), ("expand".toList, handleForm [] .expand),
    ("context".toList, budgetForm .context), ("trace-return".toList, traceReturnForm),
    ("trace-stores".toList, traceStoresForm)]

def findForm (name : Arg) : Option Form := (forms.find? (·.1 = name)).map (·.2)

/-! ### Command lines -/

/-- **Behind the options for the state directory**, with the directory that holds there. -/
inductive StateDirs : Arg → List Arg → Arg → List Arg → Prop
  | here (dir : Arg) (args : List Arg) : StateDirs dir args dir args
  | pair {before value dir : Arg} {args rest : List Arg} (h : StateDirs value args dir rest) :
      StateDirs before (stateDirName :: value :: args) dir rest
  | equals {before value dir : Arg} {args rest : List Arg} (h : StateDirs value args dir rest) :
      StateDirs before ((stateDirName ++ '=' :: value) :: args) dir rest

/-- **A command line, read**: the state directory, the command, its operands and its options. -/
structure Reading where
  dir : Arg
  name : Arg
  form : Form
  operands : List Arg
  items : List Item

/-- The arguments as the program gets them, behind the environment's state directory. -/
structure Reads (env : Option Arg) (argv : List Arg) (r : Reading) : Prop where
  args : ∃ args, StateDirs (env.getD ".irez".toList) (argv.map cString) r.dir (r.name :: args) ∧
    r.form.Shaped args r.operands r.items
  form : findForm r.name = some r.form

/-! ### Values -/

/-- **The values of the grammar**: every value of a list is in it, and every budget is a whole
    decimal integer of the range that is not negative. -/
def Strict (form : Form) (items : List Item) : Prop :=
  ∀ i ∈ items, ∀ v, i.value = some v →
    match form.kind i.name with
    | some (.choice choices _) => v ∈ choices
    | some .budget => IsBudget v
    | _ => True

/-- What the program asks of each value. -/
def Good (form : Form) (name v : Arg) : Prop :=
  match form.kind name with
  | some .budget => (stoll v).isSome = true
  | some (.choice choices true) => v ∈ choices
  | _ => True

/-- What the program asks of the last value of an option. -/
def Kind.Final (v : Arg) : Kind → Prop
  | .choice choices false => v ∈ choices
  | .budget => 0 ≤ stollRead v
  | _ => True

/-- **The values that the program lets pass.** -/
structure Lax (form : Form) (items : List Item) : Prop where
  each : ∀ i ∈ items, ∀ v, i.value = some v → Good form i.name v
  final : ∀ o ∈ form.opts, ∀ v, last items o.1 = some v → o.2.Final v

/-- The call that the grammar gives a command line. -/
def Reading.call (r : Reading) : ServiceCall := r.form.call r.operands (valuesOf r.form decimalRead r.items)

/-- **The grammar**: a command line with the values of the grammar, and its call. -/
def Accepted (env : Option Arg) (argv : List Arg) (dir name : Arg) (c : ServiceCall) : Prop :=
  ∃ r, Reads env argv r ∧ Strict r.form r.items ∧ r.dir = dir ∧ r.name = name ∧ r.call = c

/-- **A command accepts what has its form**, with lax values. -/
def Form.Accepts (form : Form) (args : List Arg) (c : ServiceCall) : Prop :=
  ∃ operands items, form.Shaped args operands items ∧ Lax form items ∧
    c = form.call operands (valuesOf form stollRead items)

end Irez.Cli
