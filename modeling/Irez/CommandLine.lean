/-
  File:      Irez/CommandLine.lean
  Subject:   Where `irez` accepts exactly its grammar (src/cli_main.cpp 168-437).

  The program accepts a command line that reads as one with lax values. The grammar asks for
  strict ones: in between are budgets with text behind their digits, and values that a later
  occurrence of their option hides.

  * `asked_iff` -- what the program accepts;
  * `Reads.unique` -- a command line reads in one way;
  * `meets_iff` -- where it accepts exactly its grammar, and refuses all else;
  * `Trailing` -- a budget of which only the front is read.
-/
import Mathlib.Data.List.Nodup
import Mathlib.Data.List.TakeWhile
import Irez.Commands
import Irez.Tools

open Irez.Basis.Options

namespace Irez.Cli

/-! ## 1. What the program accepts -/

theorem stateDirName_plain : '=' ∉ stateDirName := by decide

theorem isLong_equals (v : Arg) : isLong (stateDirName ++ '=' :: v) = true := rfl

theorem withEquals_equals (v : Arg) : withEquals stateDirName (stateDirName ++ '=' :: v) = true :=
  withEquals_iff.mpr ⟨v, rfl⟩

theorem globals_pair (before v : Arg) (args : List Arg) :
    globals before (stateDirName :: v :: args) = globals v args := rfl

theorem globals_equals (before v : Arg) (args : List Arg) :
    globals before ((stateDirName ++ '=' :: v) :: args) = globals v args := by
  refine (globals.eq_def _ _).trans ?_
  show (if _ then if _ then _ else _ else _) = _
  rw [if_pos (isLong_equals v), if_pos (withEquals_equals v), withEquals_value]

theorem globals_command {name : Arg} (h : isLong name = false) (before : Arg) (rest : List Arg) :
    globals before (name :: rest) = request before name rest := by
  refine (globals.eq_def _ _).trans ?_
  show (if _ then _ else _) = _
  rw [if_neg (Bool.eq_false_iff.mp h)]

/-- **Behind the options for the state directory** the command is asked for. -/
theorem globals_behind {before dir name : Arg} {args rest : List Arg}
    (h : StateDirs before args dir (name :: rest)) (hn : isLong name = false) :
    globals before args = request dir name rest := by
  generalize hr : name :: rest = all at h
  induction h with
  | here dir args =>
    subst hr
    exact globals_command hn dir rest
  | pair _ ih => exact (globals_pair ..).trans (ih hr)
  | equals _ ih => exact (globals_equals ..).trans (ih hr)

/-- Where the command is asked for, it stands behind such options. -/
theorem behind_of_call {before dir name : Arg} {args : List Arg} {c : ServiceCall}
    (h : globals before args = .call dir name c) :
    ∃ rest, StateDirs before args dir (name :: rest) ∧ dispatch name rest = .ok c := by
  fun_induction globals before args with
  | case1 before => cases h
  | case2 before a rest hlong heq ih =>
    obtain ⟨v, rfl⟩ := withEquals_iff.mp heq
    obtain ⟨rest', hb, hd⟩ := ih h
    rw [withEquals_value] at hb
    exact ⟨rest', .equals hb, hd⟩
  | case3 before hlong heq => cases h
  | case4 before value rest hlong heq ih =>
    obtain ⟨rest', hb, hd⟩ := ih h
    exact ⟨rest', .pair hb, hd⟩
  | case5 before rest hlong heq hne => cases h
  | case6 before a rest hlong heq hne hhelp => cases h
  | case7 before a rest hlong =>
    unfold request at h
    cases hd : dispatch a rest with
    | error stop =>
      rw [hd] at h
      cases stop <;> cases h
    | ok call =>
      rw [hd] at h
      cases h
      exact ⟨rest, .here _ _, hd⟩

theorem forms_short : ∀ f ∈ forms, isLong f.1 = false := by decide

theorem findForm_short {name : Arg} {form : Form} (h : findForm name = some form) :
    isLong name = false := by
  obtain ⟨f, hf, _⟩ := Option.map_eq_some_iff.mp h
  have hname : f.1 = name := by simpa using List.find?_some hf
  rw [← hname]
  exact forms_short f (List.mem_of_find?_eq_some hf)

/-- The call that the program makes of a command line. -/
def Reading.made (r : Reading) : ServiceCall :=
  r.form.call r.operands (valuesOf r.form stollRead r.items)

/-- **What the program accepts**: what reads as a command line with lax values. -/
theorem asked_iff {env : Option Arg} {argv : List Arg} {dir name : Arg} {c : ServiceCall} :
    asked env argv = .call dir name c ↔
      ∃ r, Reads env argv r ∧ Lax r.form r.items ∧ r.dir = dir ∧ r.name = name ∧ r.made = c := by
  constructor
  · intro h
    obtain ⟨args, hb, hd⟩ := behind_of_call h
    obtain ⟨form, hform, operands, items, hshape, hlax, hc⟩ := dispatch_iff.mp hd
    exact ⟨⟨dir, name, form, operands, items⟩, ⟨⟨args, hb, hshape⟩, hform⟩, hlax, rfl, rfl, hc.symm⟩
  · intro ⟨r, hr, hlax, hdir, hname, hc⟩
    obtain ⟨args, hb, hshape⟩ := hr.args
    have hd : dispatch r.name args = .ok r.made :=
      dispatch_iff.mpr ⟨r.form, hr.form, r.operands, r.items, hshape, hlax, rfl⟩
    unfold asked
    rw [globals_behind hb (findForm_short hr.form), request, hd, hdir, hname, hc]

/-! ## 2. A command line reads in one way -/

/-- Options for the state directory end where a word stands that is none. -/
theorem StateDirs.unique {before dir dir' name name' : Arg} {args rest rest' : List Arg}
    (hn : isLong name = false) (hn' : isLong name' = false)
    (h : StateDirs before args dir (name :: rest)) (h' : StateDirs before args dir' (name' :: rest')) :
    dir = dir' ∧ name = name' ∧ rest = rest' := by
  generalize hr : name :: rest = all at h
  induction h with
  | here dir args =>
    subst hr
    cases h' with
    | here _ _ => exact ⟨rfl, rfl, rfl⟩
    | pair _ => cases hn
    | equals _ => cases hn
  | pair h ih =>
    generalize hw : (stateDirName :: _ :: _) = words at h'
    cases h' with
    | here _ _ =>
      obtain ⟨rfl, _⟩ := List.cons.inj hw
      cases hn'
    | pair h' =>
      obtain ⟨rfl, rfl⟩ := List.cons.inj (List.cons.inj hw).2
      exact ih h' hr
    | equals h' => exact absurd (List.cons.inj hw).1 (not_equals stateDirName_plain)
  | @equals before v dir args rest h ih =>
    generalize hw : (stateDirName ++ '=' :: v) :: args = words at h'
    cases h' with
    | here _ _ =>
      obtain ⟨rfl, _⟩ := List.cons.inj hw
      cases hn'
    | pair h' => exact absurd (List.cons.inj hw).1.symm (not_equals stateDirName_plain)
    | equals h' =>
      obtain ⟨hword, rfl⟩ := List.cons.inj hw
      obtain ⟨_, rfl⟩ := equals_unique stateDirName_plain stateDirName_plain hword
      exact ih h' hr

theorem forms_plain : ∀ f ∈ forms, ∀ o ∈ f.2.opts, '=' ∉ o.1 := by decide

theorem forms_nodup : ∀ f ∈ forms, (f.2.opts.map (·.1)).Nodup := by decide

theorem mem_forms {name : Arg} {form : Form} (h : findForm name = some form) :
    (name, form) ∈ forms := by
  obtain ⟨⟨n, f⟩, hf, rfl⟩ := Option.map_eq_some_iff.mp h
  obtain rfl : n = name := by simpa using List.find?_some hf
  exact List.mem_of_find?_eq_some hf

theorem Form.Valued.plain {form : Form} {name n : Arg} (hf : findForm name = some form)
    (h : form.Valued n) : '=' ∉ n := by
  obtain ⟨k, hk, _⟩ := h
  exact forms_plain _ (mem_forms hf) _ (Form.kind_mem hk)

theorem Form.Flag.plain {form : Form} {name n : Arg} (hf : findForm name = some form)
    (h : form.Flag n) : '=' ∉ n := forms_plain _ (mem_forms hf) _ (Form.kind_mem h)

theorem Form.Valued.not_flag {form : Form} {n : Arg} (h : form.Valued n) : ¬ form.Flag n := by
  obtain ⟨k, hk, hne⟩ := h
  intro hf
  rw [Form.Flag, hk] at hf
  exact hne (Option.some.inj hf)

/-- **A command line reads in one way.** -/
theorem Reads.unique {env : Option Arg} {argv : List Arg} {r r' : Reading} (h : Reads env argv r)
    (h' : Reads env argv r') : r = r' := by
  obtain ⟨dir, name, form, operands, items⟩ := r
  obtain ⟨dir', name', form', operands', items'⟩ := r'
  obtain ⟨args, hb, hshape⟩ := h.args
  obtain ⟨args', hb', hshape'⟩ := h'.args
  have hform : findForm name = some form := h.form
  have hform' : findForm name' = some form' := h'.form
  obtain ⟨rfl, rfl, rfl⟩ := StateDirs.unique (findForm_short hform) (findForm_short hform') hb hb'
  obtain rfl := Option.some.inj (hform.symm.trans hform')
  obtain ⟨rest, hargs, hspelled⟩ := hshape.spelled
  obtain ⟨rest', hargs', hspelled'⟩ := hshape'.spelled
  have hsame : operands ++ rest = operands' ++ rest' := by
    have heq := hargs.symm.trans hargs'
    rw [List.append_assoc, List.append_assoc] at heq
    exact List.append_cancel_left heq
  obtain ⟨rfl, rfl⟩ := List.append_inj hsame (hshape.operands.trans hshape'.operands.symm)
  obtain rfl := Spelled.unique (fun _ hn => Form.Valued.plain hform hn)
    (fun _ hn => Form.Flag.plain hform hn) (fun _ hn => hn.not_flag) hspelled hspelled'
  rfl

/-! ## 3. Strict values are lax -/

theorem digitsValue_some {digits : Arg} {n : Int} (h : digitsValue digits = some n) :
    digits ≠ [] ∧ digits.all Char.isDigit = true ∧ (Nat.ofDigitChars 10 digits 0 : Int) = n := by
  unfold digitsValue at h
  split at h
  · rename_i hd
    exact ⟨hd.1, hd.2, Option.some.inj h⟩
  · cases h

theorem signed_digits {digits : Arg} {n : Int} (negative : Bool) (h : digitsValue digits = some n)
    (hr : IsI64 (if negative then -n else n)) :
    signed negative digits = some (if negative then -n else n) := by
  obtain ⟨hne, hall, hn⟩ := digitsValue_some h
  have htake : digits.takeWhile Char.isDigit = digits :=
    List.takeWhile_eq_self_iff.mpr (List.all_eq_true.mp hall)
  unfold signed
  simp only [htake, if_neg hne, hn, if_pos hr]

/-- **A whole decimal integer is read as it is.** -/
theorem stoll_decimalValue {text : Arg} {n : Int} (h : decimalValue text = some n)
    (hr : IsI64 n) : stoll text = some n := by
  unfold decimalValue at h
  split at h
  · rename_i digits
    obtain ⟨m, hm, rfl⟩ := Option.map_eq_some_iff.mp h
    exact signed_digits true hm hr
  · rename_i digits
    exact signed_digits false h hr
  · rename_i digits hminus hplus
    obtain ⟨hne, hall, _⟩ := digitsValue_some h
    have hspace : text.dropWhile isSpace = text := by
      cases text with
      | nil => rfl
      | cons c text =>
        have hc : c.isDigit = true := List.all_eq_true.mp hall c List.mem_cons_self
        refine List.dropWhile_cons_of_neg ?_
        rw [(digit_not_space hc).1]
        exact Bool.false_ne_true
    unfold stoll
    rw [hspace]
    split
    · exact absurd rfl (hminus _)
    · exact absurd rfl (hplus _)
    · exact signed_digits false h hr

/-- A budget of the grammar is read as it is. -/
theorem IsBudget.read {v : Arg} (h : IsBudget v) :
    (stoll v).isSome = true ∧ stollRead v = decimalRead v ∧ 0 ≤ stollRead v := by
  obtain ⟨n, hn, hpos, hr⟩ := h
  unfold stollRead decimalRead
  rw [stoll_decimalValue hn hr, hn]
  exact ⟨rfl, rfl, hpos⟩

/-- The last value of an option of the grammar. -/
theorem Strict.last {form : Form} {items : List Item} (h : Strict form items) {n v : Arg} {k : Kind}
    (hk : form.kind n = some k) (hv : last items n = some v) :
    match k with
    | .choice choices _ => v ∈ choices
    | .budget => IsBudget v
    | _ => True := by
  have hstrict := h _ (exists_of_last hv) v rfl
  simp only [hk] at hstrict
  cases k with
  | text | flag => trivial
  | choice choices each => exact hstrict
  | budget => exact hstrict

theorem Form.kind_of_mem {form : Form} (hn : (form.opts.map (·.1)).Nodup) {o : Arg × Kind}
    (ho : o ∈ form.opts) : form.kind o.1 = some o.2 := by
  have hsome : (form.kind o.1).isSome = true := kind_isSome.mpr (List.mem_map_of_mem ho)
  obtain ⟨k, hk⟩ := Option.isSome_iff_exists.mp hsome
  have hsame := List.inj_on_of_nodup_map hn (kind_mem hk) ho rfl
  rw [hk, ← hsame]

/-- **Values of the grammar pass.** -/
theorem Strict.lax {form : Form} (hn : (form.opts.map (·.1)).Nodup) {items : List Item}
    (h : Strict form items) : Lax form items where
  each i hi v hv := by
    have hstrict := h i hi v hv
    unfold Good
    cases hk : form.kind i.name with
    | none => trivial
    | some k =>
      rw [hk] at hstrict
      cases k with
      | text | flag => trivial
      | choice choices each =>
        cases each with
        | true => exact hstrict
        | false => trivial
      | budget => exact hstrict.read.1
  final o ho v hv := by
    have hstrict := h.last (Form.kind_of_mem hn ho) hv
    obtain ⟨n, k⟩ := o
    cases k with
    | text | flag => trivial
    | choice choices each =>
      cases each with
      | true => trivial
      | false => exact hstrict
    | budget => exact hstrict.read.2.2

/-- The values agree where the last budgets do. -/
theorem valuesOf_congr {form : Form} {read read' : Arg → Int} {items : List Item}
    (h : ∀ n v, form.kind n = some .budget → Basis.Options.last items n = some v →
      read v = read' v) : valuesOf form read items = valuesOf form read' items := by
  unfold valuesOf
  congr 1
  funext n
  by_cases hk : form.kind n = some .budget
  · rw [if_pos hk, if_pos hk]
    cases hv : Basis.Options.last items n with
    | none => rfl
    | some v => rw [Option.map_some, Option.map_some, h n v hk hv]
  · rw [if_neg hk, if_neg hk]

/-- **The service is called with the values that are written.** -/
theorem Strict.values {form : Form} {items : List Item} (h : Strict form items) :
    valuesOf form stollRead items = valuesOf form decimalRead items := by
  refine valuesOf_congr fun n v hk hv => ?_
  have hb : IsBudget v := h.last hk hv
  exact hb.read.2.1

/-! ## 4. The constructor of the service -/

/-- `--help` behind the options for the state directory. -/
def AsksHelp (env : Option Arg) (argv : List Arg) : Prop :=
  ∃ dir rest, StateDirs (env.getD ".irez".toList) (argv.map cString) dir ("--help".toList :: rest)

/-- The program ends with code 2, whatever the service would do, and does not call it. -/
def Refuses (absolute : Arg → Bool) (env : Option Arg) (argv : List Arg) : Prop :=
  (∀ dir name c, run absolute env argv ≠ some (.call dir name c)) ∧
    ∀ what service, (main absolute what service env argv).code = 2

/-- **The program accepts exactly its grammar** on a vector of arguments: it calls the service
    where the grammar has the vector, with the values that are written, and it refuses all else but
    a request for help. -/
def Meets (absolute : Arg → Bool) (env : Option Arg) (argv : List Arg) : Prop :=
  (∀ dir name c, run absolute env argv = some (.call dir name c) ↔ Accepted env argv dir name c) ∧
    ((∀ dir name c, ¬ Accepted env argv dir name c) → ¬ AsksHelp env argv →
      Refuses absolute env argv)

theorem serviceDir_equals (before v : Arg) (args : List Arg) :
    serviceDir before ((stateDirName ++ '=' :: v) :: args) = serviceDir v args := by
  refine (serviceDir.eq_def _ _).trans ?_
  show (if _ then if _ then _ else _ else _) = _
  rw [if_pos (isLong_equals v), if_pos (withEquals_equals v), withEquals_value]

theorem serviceDir_pair (before v : Arg) (args : List Arg) :
    serviceDir before (stateDirName :: v :: args) = serviceDir v args := rfl

theorem serviceDir_command {name : Arg} (h : isLong name = false) (before : Arg)
    (rest : List Arg) : serviceDir before (name :: rest) = some before := by
  refine (serviceDir.eq_def _ _).trans ?_
  show (if _ then _ else _) = _
  rw [if_neg (Bool.eq_false_iff.mp h)]

theorem serviceDir_behind {before dir : Arg} {args rest : List Arg}
    (h : StateDirs before args dir rest) : serviceDir before args = serviceDir dir rest := by
  induction h with
  | here _ _ => rfl
  | pair _ ih => exact (serviceDir_pair ..).trans ih
  | equals _ ih => exact (serviceDir_equals ..).trans ih

/-- Where help is asked for, the service is not made. -/
theorem serviceDir_help {before dir : Arg} {args rest : List Arg}
    (h : StateDirs before args dir ("--help".toList :: rest)) : serviceDir before args = none := by
  refine (serviceDir_behind h).trans ((serviceDir.eq_def _ _).trans ?_)
  show (if _ then if _ then _ else if _ then _ else _ else _) = _
  rw [if_pos (by decide), if_neg (by decide), if_neg (by decide)]

/-- Where `run` prints its usage on request, the request is behind the options. -/
theorem help_of_globals {before : Arg} {args : List Arg} (h : globals before args = .help) :
    ∃ dir rest, StateDirs before args dir ("--help".toList :: rest) := by
  fun_induction globals before args with
  | case1 before => cases h
  | case2 before a rest hlong heq ih =>
    obtain ⟨v, rfl⟩ := withEquals_iff.mp heq
    obtain ⟨dir, rest', hb⟩ := ih h
    rw [withEquals_value] at hb
    exact ⟨dir, rest', .equals hb⟩
  | case3 before hlong heq => cases h
  | case4 before value rest hlong heq ih =>
    obtain ⟨dir, rest', hb⟩ := ih h
    exact ⟨dir, rest', .pair hb⟩
  | case5 before rest hlong heq hne => exact ⟨before, rest, .here _ _⟩
  | case6 before a rest hlong heq hne hhelp => cases h
  | case7 before a rest hlong =>
    unfold request at h
    cases hd : dispatch a rest with
    | error stop =>
      rw [hd] at h
      cases stop <;> cases h
    | ok call =>
      rw [hd] at h
      cases h

/-! ## 5. Where the program accepts exactly its grammar -/

/-- The constructor returns where the name of a command is there. -/
def Constructs (absolute : Arg → Bool) (env : Option Arg) (argv : List Arg) : Prop :=
  ∀ dir name rest, StateDirs (env.getD ".irez".toList) (argv.map cString) dir (name :: rest) →
    isLong name = false → absolute dir = true

/-- The command line has no value that the program lets pass and the grammar does not. -/
def Honest (env : Option Arg) (argv : List Arg) : Prop :=
  ∀ r, Reads env argv r → Lax r.form r.items → Strict r.form r.items

theorem behind_of_serviceDir {before dir : Arg} {args : List Arg}
    (h : serviceDir before args = some dir) :
    ∃ name rest, StateDirs before args dir (name :: rest) ∧ isLong name = false := by
  fun_induction serviceDir before args with
  | case1 before => cases h
  | case2 before a rest hlong heq ih =>
    obtain ⟨v, rfl⟩ := withEquals_iff.mp heq
    obtain ⟨name, rest', hb, hn⟩ := ih h
    rw [withEquals_value] at hb
    exact ⟨name, rest', .equals hb, hn⟩
  | case3 before hlong heq => cases h
  | case4 before value rest hlong heq ih =>
    obtain ⟨name, rest', hb, hn⟩ := ih h
    exact ⟨name, rest', .pair hb, hn⟩
  | case5 before a rest hlong heq hne => cases h
  | case6 before a rest hlong =>
    obtain rfl := Option.some.inj h
    exact ⟨a, rest, .here _ _, Bool.eq_false_iff.mpr hlong⟩

theorem Constructs.run {absolute : Arg → Bool} {env : Option Arg} {argv : List Arg}
    (h : Constructs absolute env argv) : Cli.run absolute env argv = some (asked env argv) := by
  unfold Cli.run
  split
  · rfl
  · rename_i dir hdir
    obtain ⟨name, rest, hb, hn⟩ := behind_of_serviceDir hdir
    rw [if_pos (h dir name rest hb hn)]

/-- The grammar has what it reads with strict values; the program makes the same call. -/
theorem accepted_iff {env : Option Arg} {argv : List Arg} (h : Honest env argv) {dir name : Arg}
    {c : ServiceCall} : asked env argv = .call dir name c ↔ Accepted env argv dir name c := by
  rw [asked_iff]
  constructor
  · intro ⟨r, hr, hlax, hdir, hname, hc⟩
    have hstrict := h r hr hlax
    refine ⟨r, hr, hstrict, hdir, hname, ?_⟩
    rw [← hc, Reading.call, Reading.made, hstrict.values]
  · intro ⟨r, hr, hstrict, hdir, hname, hc⟩
    refine ⟨r, hr, hstrict.lax (forms_nodup _ (mem_forms hr.form)), hdir, hname, ?_⟩
    rw [← hc, Reading.call, Reading.made, hstrict.values]

/-- **Where the program accepts exactly its grammar**: the constructor of the service returns, and
    no value passes that the grammar does not have. -/
theorem meets_iff (absolute : Arg → Bool) (env : Option Arg) (argv : List Arg) :
    Meets absolute env argv ↔ Constructs absolute env argv ∧ Honest env argv := by
  constructor
  · intro ⟨hcalls, hrest⟩
    have hconstructs : Constructs absolute env argv := by
      intro dir name rest hb hn
      by_contra habs
      have hdir : serviceDir (env.getD ".irez".toList) (argv.map cString) = some dir :=
        (serviceDir_behind hb).trans (serviceDir_command hn dir rest)
      have hstarted : run absolute env argv = none := by
        unfold run
        rw [hdir]
        exact if_neg habs
      have hnone (d n : Arg) (c : ServiceCall) : ¬ Accepted env argv d n c := by
        rw [← hcalls, hstarted]
        intro h
        cases h
      have hhelp : ¬ AsksHelp env argv := by
        intro ⟨d, r, h⟩
        rw [serviceDir_help h] at hdir
        cases hdir
      have hcode := (hrest hnone hhelp).2 [] fun _ _ => ⟨[], .ok .null⟩
      unfold main at hcode
      rw [hstarted] at hcode
      have hfive : (5 : Nat) = 2 := hcode
      omega
    refine ⟨hconstructs, fun r hr hlax => ?_⟩
    have hrun : asked env argv = .call r.dir r.name r.made := asked_iff.mpr ⟨r, hr, hlax, rfl, rfl, rfl⟩
    obtain ⟨r', hr', hstrict, _⟩ := (hcalls _ _ _).mp (hconstructs.run.trans (congrArg some hrun))
    rw [hr.unique hr']
    exact hstrict
  · intro ⟨hconstructs, hhonest⟩
    have hstarted := hconstructs.run
    have hcalls (dir name : Arg) (c : ServiceCall) :
        run absolute env argv = some (.call dir name c) ↔ Accepted env argv dir name c := by
      rw [hstarted, Option.some.injEq]
      exact accepted_iff hhonest
    refine ⟨hcalls, fun hnone hhelp => ⟨fun dir name c h => ?_, fun what service => ?_⟩⟩
    · exact hnone dir name c ((hcalls dir name c).mp h)
    · unfold main
      rw [hstarted]
      cases hrun : asked env argv with
      | help => exact absurd (help_of_globals hrun) hhelp
      | usage message => rfl
      | refused name message => rfl
      | call dir name c => exact absurd ((accepted_iff hhonest).mp hrun) (hnone dir name c)

/-! ## 6. A budget of which only the front is read -/

namespace Trailing

def argv : List Arg := ["uses".toList, "H".toList, "--budget-nodes".toList, "12abc".toList]

def reading : Reading where
  dir := ".irez".toList
  name := "uses".toList
  form := budgetForm .uses
  operands := ["H".toList]
  items := [⟨"--budget-nodes".toList, some "12abc".toList⟩]

end Trailing

open Trailing in
/-- **The service is called with the number at the front**, and the grammar has no such text. -/
theorem trailing_text_accepted :
    run (fun _ => true) none argv = some (.call ".irez".toList "uses".toList (.uses "H".toList 12)) ∧
      ¬ ∀ absolute env argv, Meets absolute env argv := by
  have hrun : asked none argv = .call ".irez".toList "uses".toList (.uses "H".toList 12) := by decide
  refine ⟨congrArg some hrun, fun h => ?_⟩
  obtain ⟨r, hr, hlax, _⟩ := asked_iff.mp hrun
  have hreads : Reads none argv reading := by
    refine ⟨⟨_, .here _ _, ⟨_, rfl, ?_⟩, rfl, ?_⟩, rfl⟩
    · exact .pair ⟨.budget, rfl, by decide⟩ .nil
    · intro n hn
      cases hn
  obtain rfl := hr.unique hreads
  have hstrict := (((meets_iff _ _ _).mp (h (fun _ => true) none argv)).2 _ hreads hlax)
    _ List.mem_cons_self _ rfl
  have hbudget : IsBudget "12abc".toList := hstrict
  obtain ⟨n, hn, _⟩ := hbudget
  have hnone : decimalValue "12abc".toList = none := by decide
  rw [hnone] at hn
  cases hn

end Irez.Cli
