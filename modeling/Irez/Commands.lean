/-
  File:      Irez/Commands.lean
  Subject:   What the commands of `irez` accept (src/cli_main.cpp 168-396).

  A loop over options reads exactly what its options spell, and what it has read is a matter of
  the last value of each. From this, one lemma for each command: it accepts what has its form.

  * `options_iff` -- the words that a loop reads;
  * `Folds`, `Folds.applyAll_iff` -- the state of a loop, from last values;
  * `Form.Loop.operand_iff`, `Form.Loop.bare_iff` -- a command with its loop;
  * `dispatch_iff` -- every command accepts what has its form, with lax values.
-/
import Mathlib.Data.List.Find
import Irez.Grammar

open Irez.Basis.Options

namespace Irez.Cli

/-! ## 1. Loops -/

theorem bind_ok_iff {α β : Type} {p : Parse α} {f : α → Parse β} {b : β} :
    (p >>= f) = .ok b ↔ ∃ a, p = .ok a ∧ f a = .ok b := by
  cases p with
  | error e =>
    constructor
    · intro h
      cases h
    · intro ⟨_, h, _⟩
      cases h
  | ok a =>
    constructor
    · intro h
      exact ⟨a, rfl, h⟩
    · intro ⟨_, h, hb⟩
      obtain rfl := Except.ok.inj h
      exact hb

/-- A check and what follows it. -/
theorem then_ok_iff {β : Type} {p : Parse Unit} {q : Parse β} {b : β} :
    (p >>= fun _ => q) = .ok b ↔ p = .ok () ∧ q = .ok b := by
  rw [bind_ok_iff]
  exact ⟨fun ⟨_, h⟩ => h, fun h => ⟨(), h⟩⟩

theorem return_iff {β : Type} {a b : β} : (pure a : Parse β) = .ok b ↔ b = a :=
  ⟨fun h => (Except.ok.inj h).symm, fun h => by rw [h]; rfl⟩

theorem take_iff {args : List Arg} {p : Arg × List Arg} :
    take args = .ok p ↔ args = p.1 :: p.2 := by
  cases args with
  | nil => exact ⟨fun h => (by cases h), fun h => (by cases h)⟩
  | cons a rest =>
    constructor
    · intro h
      obtain rfl := Except.ok.inj h
      rfl
    · intro h
      obtain ⟨rfl, rfl⟩ := List.cons.inj h
      rfl

theorem requireEnd_iff {args : List Arg} {u : Unit} : requireEnd args = .ok u ↔ args = [] := by
  cases args with
  | nil => exact ⟨fun _ => rfl, fun _ => rfl⟩
  | cons a rest => exact ⟨fun h => (by cases h), fun h => (by cases h)⟩

theorem requireChoice_iff {name value : Arg} {choices : List Arg} {u : Unit} :
    requireChoice name value choices = .ok u ↔ value ∈ choices := by
  unfold requireChoice
  by_cases h : value ∈ choices
  · rw [if_pos h]
    exact ⟨fun _ => h, fun _ => rfl⟩
  · rw [if_neg h]
    exact ⟨fun he => (by cases he), fun hv => absurd hv h⟩

theorem requireNonnegative_iff {name : Arg} {n : Int} {u : Unit} :
    requireNonnegative name n = .ok u ↔ 0 ≤ n := by
  unfold requireNonnegative
  by_cases h : n < 0
  · rw [if_pos h]
    exact ⟨fun he => (by cases he), fun hn => absurd h (by omega)⟩
  · rw [if_neg h]
    exact ⟨fun _ => (by omega), fun _ => rfl⟩

/-- The options of a loop, with that of its last branch. -/
def Otherwise.opts {σ : Type} : Otherwise σ → List (Opt σ)
  | .option opt => [opt]
  | .unknown _ => []

/-- Options, set one after the other. -/
def applyAll {σ : Type} (opts : List (Opt σ)) : List Item → σ → Parse σ
  | [], s => .ok s
  | i :: items, s =>
    match opts.find? (·.name = i.name) with
    | none => .ok s
    | some opt =>
      match opt.set (i.value.getD []) s with
      | .error e => .error e
      | .ok s' => applyAll opts items s'

theorem withEquals_iff {name a : Arg} :
    withEquals name a = true ↔ ∃ v, a = name ++ '=' :: v := by
  unfold withEquals
  rw [List.isPrefixOf_iff_prefix]
  constructor
  · intro ⟨v, hv⟩
    exact ⟨v, by simpa using hv.symm⟩
  · intro ⟨v, hv⟩
    exact ⟨v, by simpa using hv.symm⟩

theorem withEquals_value {name v : Arg} : (name ++ '=' :: v).drop (name.length + 1) = v := by
  rw [← List.drop_drop, List.drop_left]
  rfl

/-- How an option stands in front of arguments: its name and its value, in two words or in one. -/
def Written (name v a : Arg) (rest rest' : List Arg) : Prop :=
  (a = name ∧ rest = v :: rest') ∨ (a = name ++ '=' :: v ∧ rest = rest')

/-- An argument is for the option that is written there. -/
theorem isFor_written {n name v a : Arg} (hn : '=' ∉ n) (hname : '=' ∉ name)
    (h : a = name ∨ a = name ++ '=' :: v) : isFor n a = decide (n = name) := by
  rw [Bool.eq_iff_iff, decide_eq_true_iff, isFor, Bool.or_eq_true, decide_eq_true_iff,
    withEquals_iff]
  rcases h with rfl | rfl
  · constructor
    · intro h
      rcases h with rfl | ⟨w, hw⟩
      · rfl
      · exact absurd hw (not_equals hname)
    · intro h
      exact .inl h.symm
  · constructor
    · intro h
      rcases h with h | ⟨w, hw⟩
      · exact absurd h.symm (not_equals hn)
      · exact (equals_unique hname hn hw).1.symm
    · intro h
      exact .inr ⟨v, by rw [h]⟩

section Loop

variable {σ : Type} {opts : List (Opt σ)} {otherwise : Otherwise σ}

/-- The option that is written is picked. -/
theorem pick_iff (hplain : ∀ opt ∈ opts ++ otherwise.opts, '=' ∉ opt.name) {opt : Opt σ}
    {name v a : Arg} (hname : '=' ∉ name) (ha : a = name ∨ a = name ++ '=' :: v) :
    (pick opts otherwise a = .ok opt ∧ opt.name = name) ↔
      (opts ++ otherwise.opts).find? (·.name = name) = some opt := by
  have hfind : opts.find? (fun opt => isFor opt.name a) = opts.find? (·.name = name) := by
    refine List.find?_congr fun opt ho => ?_
    exact isFor_written (hplain opt (List.mem_append_left _ ho)) hname ha
  unfold pick
  rw [hfind, List.find?_append]
  cases hopts : opts.find? (·.name = name) with
  | some found =>
    have hfound : found.name = name := by simpa using List.find?_some hopts
    rw [Option.some_or]
    constructor
    · intro h
      rw [Except.ok.inj h.1]
    · intro h
      obtain rfl := Option.some.inj h
      exact ⟨rfl, hfound⟩
  | none =>
    rw [Option.none_or]
    cases otherwise with
    | option last =>
      show (Except.ok last = .ok opt ∧ _) ↔ [last].find? _ = some opt
      by_cases hlast : last.name = name
      · rw [List.find?_cons_of_pos (by simpa using hlast)]
        constructor
        · intro h
          rw [Except.ok.inj h.1]
        · intro h
          obtain rfl := Option.some.inj h
          exact ⟨rfl, hlast⟩
      · rw [List.find?_cons_of_neg (by simpa using hlast)]
        constructor
        · intro ⟨h, hn⟩
          rw [Except.ok.inj h] at hlast
          exact absurd hn hlast
        · intro h
          cases h
    | unknown command =>
      constructor
      · intro h
        cases h.1
      · intro h
        cases h

/-- **One option of a loop.** -/
theorem options_written (hplain : ∀ opt ∈ opts ++ otherwise.opts, '=' ∉ opt.name) {opt : Opt σ}
    {v a : Arg} {rest rest' : List Arg} (hw : Written opt.name v a rest rest')
    (hfind : (opts ++ otherwise.opts).find? (·.name = opt.name) = some opt) (s : σ) :
    options opts otherwise (a :: rest) s =
      match opt.set v s with
      | .error e => .error e
      | .ok s' => options opts otherwise rest' s' := by
  have hname : '=' ∉ opt.name := hplain opt (List.mem_of_find?_eq_some hfind)
  rcases hw with ⟨rfl, rfl⟩ | ⟨rfl, rfl⟩
  · have hpick := ((pick_iff (v := v) hplain hname (.inl rfl)).mpr hfind).1
    have hnot : withEquals opt.name opt.name = false := by
      rw [Bool.eq_false_iff, ne_eq, withEquals_iff]
      intro ⟨w, hw⟩
      exact not_equals hname hw
    cases hset : opt.set v s <;>
      simp only [options, hpick, hset, hnot, Bool.false_eq_true, if_false, ne_eq, not_true_eq_false]
  · have hpick := ((pick_iff (v := v) hplain hname (.inr rfl)).mpr hfind).1
    have hyes : withEquals opt.name (opt.name ++ '=' :: v) = true := withEquals_iff.mpr ⟨v, rfl⟩
    cases hset : opt.set v s <;> simp only [options, hpick, hset, hyes, if_true, withEquals_value]

/-- The value that `option_value` takes is written behind the name. -/
theorem written_of_optionValue {name v a : Arg} {rest rest' : List Arg}
    (h : optionValue name (a :: rest) = .ok (v, rest')) : Written name v a rest rest' := by
  simp only [optionValue] at h
  by_cases hequals : withEquals name a = true
  · rw [if_pos hequals] at h
    obtain ⟨w, rfl⟩ := withEquals_iff.mp hequals
    rw [withEquals_value] at h
    obtain ⟨rfl, rfl⟩ := Prod.mk.inj (Except.ok.inj h)
    exact .inr ⟨rfl, rfl⟩
  · rw [if_neg hequals] at h
    by_cases hname : a = name
    · rw [if_neg (not_not.mpr hname)] at h
      cases rest with
      | nil => cases h
      | cons value rest =>
        obtain ⟨rfl, rfl⟩ := Prod.mk.inj (Except.ok.inj h)
        exact .inl ⟨hname, rfl⟩
    · rw [if_pos hname] at h
      cases h

/-- What is picked is an option of the loop. -/
theorem mem_of_pick {a : Arg} {opt : Opt σ} (h : pick opts otherwise a = .ok opt) :
    opt ∈ opts ++ otherwise.opts := by
  unfold pick at h
  cases hfind : opts.find? (fun opt => isFor opt.name a) with
  | some found =>
    rw [hfind] at h
    obtain rfl := Except.ok.inj h
    exact List.mem_append_left _ (List.mem_of_find?_eq_some hfind)
  | none =>
    rw [hfind] at h
    cases otherwise with
    | option last =>
      obtain rfl := Except.ok.inj h
      exact List.mem_append_right _ List.mem_cons_self
    | unknown command => cases h

/-- **A loop reads options that are written**, one after the other. -/
theorem options_iff {valued flag : Arg → Prop}
    (hplain : ∀ opt ∈ opts ++ otherwise.opts, '=' ∉ opt.name)
    (hvalued : ∀ n, valued n ↔ ((opts ++ otherwise.opts).find? (·.name = n)).isSome = true)
    (hflag : ∀ n, ¬ flag n) {args : List Arg} {s s' : σ} :
    options opts otherwise args s = .ok s' ↔ ∃ items, Spelled valued flag items args ∧
      applyAll (opts ++ otherwise.opts) items s = .ok s' := by
  constructor
  · intro h
    generalize hn : args.length = n
    induction n using Nat.strong_induction_on generalizing args s with
    | _ n ih =>
      cases args with
      | nil =>
        rw [options] at h
        exact ⟨[], .nil, h⟩
      | cons a rest =>
        rw [options_cons] at h
        obtain ⟨opt, hpick, h⟩ := bind_ok_iff.mp h
        obtain ⟨⟨v, rest'⟩, hvalue, h⟩ := bind_ok_iff.mp h
        obtain ⟨s₁, hset, h⟩ := bind_ok_iff.mp h
        have hw : Written opt.name v a rest rest' := written_of_optionValue hvalue
        have hmem : opt ∈ opts ++ otherwise.opts := mem_of_pick hpick
        have hfind : (opts ++ otherwise.opts).find? (·.name = opt.name) = some opt :=
          (pick_iff hplain (hplain opt hmem) (hw.imp And.left And.left)).mp ⟨hpick, rfl⟩
        have hlt : rest'.length < n := by
          rcases hw with ⟨_, rfl⟩ | ⟨_, rfl⟩
          · simp only [List.length_cons] at hn
            omega
          · simp only [List.length_cons] at hn
            omega
        obtain ⟨items, hspelled, happly⟩ := ih _ hlt h rfl
        have hv : valued opt.name := (hvalued _).mpr (by rw [hfind]; rfl)
        refine ⟨⟨opt.name, some v⟩ :: items, ?_, ?_⟩
        · rcases hw with ⟨rfl, rfl⟩ | ⟨rfl, rfl⟩
          · exact .pair hv hspelled
          · exact .equals hv hspelled
        · simp only [applyAll, hfind, Option.getD_some, hset]
          exact happly
  · intro h
    obtain ⟨items, hspelled, happly⟩ := h
    induction hspelled generalizing s with
    | nil => exact happly
    | @pair name v items words hn _ ih =>
      obtain ⟨opt, hfind⟩ := Option.isSome_iff_exists.mp ((hvalued name).mp hn)
      obtain rfl : opt.name = name := by simpa using List.find?_some hfind
      rw [options_written hplain (.inl ⟨rfl, rfl⟩) hfind]
      simp only [applyAll, hfind, Option.getD_some] at happly
      cases hset : opt.set v s with
      | error e =>
        rw [hset] at happly
        cases happly
      | ok s₁ =>
        rw [hset] at happly
        exact ih happly
    | @equals name v items words hn _ ih =>
      obtain ⟨opt, hfind⟩ := Option.isSome_iff_exists.mp ((hvalued name).mp hn)
      obtain rfl : opt.name = name := by simpa using List.find?_some hfind
      rw [options_written hplain (.inr ⟨rfl, rfl⟩) hfind]
      simp only [applyAll, hfind, Option.getD_some] at happly
      cases hset : opt.set v s with
      | error e =>
        rw [hset] at happly
        cases happly
      | ok s₁ =>
        rw [hset] at happly
        exact ih happly
    | flag hn _ _ => exact absurd hn (hflag _)

end Loop

/-! ### What a loop has read -/

/-- One value of one option. -/
def single (name v : Arg) : Arg → Option Arg := fun n => if name = n then some v else none

/-- **What a loop has read is a matter of last values**: `F` puts values over what has been read. -/
structure Folds {σ : Type} (opts : List (Opt σ)) (good : Arg → Arg → Prop)
    (F : σ → (Arg → Option Arg) → σ) : Prop where
  start : ∀ s, F s (fun _ => none) = s
  step : ∀ opt ∈ opts, ∀ v s s', opt.set v s = .ok s' ↔ good opt.name v ∧ s' = F s (single opt.name v)
  overlay : ∀ s w w', F (F s w) w' = F s fun n => (w' n).or (w n)

theorem Folds.applyAll_iff {σ : Type} {opts : List (Opt σ)} {good : Arg → Arg → Prop}
    {F : σ → (Arg → Option Arg) → σ} (h : Folds opts good F) {items : List Item}
    (hi : ∀ i ∈ items, i.value.isSome = true ∧ (opts.find? (·.name = i.name)).isSome = true)
    {s s' : σ} :
    applyAll opts items s = .ok s' ↔
      (∀ i ∈ items, ∀ v, i.value = some v → good i.name v) ∧ s' = F s (last items) := by
  induction items generalizing s with
  | nil =>
    show Except.ok s = .ok s' ↔ _
    have hstart : F s (last []) = s := h.start s
    rw [hstart]
    exact ⟨fun he => ⟨fun i hi => (by cases hi), (Except.ok.inj he).symm⟩, fun he => by rw [he.2]⟩
  | cons i items ih =>
    obtain ⟨name, value⟩ := i
    obtain ⟨hv, hf⟩ := hi _ List.mem_cons_self
    obtain ⟨v, rfl⟩ := Option.isSome_iff_exists.mp hv
    obtain ⟨opt, hfind⟩ := Option.isSome_iff_exists.mp hf
    obtain rfl : opt.name = name := by simpa using List.find?_some hfind
    have hstep := h.step opt (List.mem_of_find?_eq_some hfind) v s
    have ih := fun s₁ => ih (fun i hin => hi i (List.mem_cons_of_mem _ hin)) (s := s₁)
    have hlast : F s (last (⟨opt.name, some v⟩ :: items)) =
        F (F s (single opt.name v)) (last items) := (h.overlay s _ _).symm
    rw [hlast, List.forall_mem_cons, and_assoc, ← ih]
    simp only [applyAll, hfind, Option.getD_some]
    cases hset : opt.set v s with
    | error e =>
      refine ⟨fun he => (by cases he), fun he => ?_⟩
      rw [(hstep _).mpr ⟨he.1 v rfl, rfl⟩] at hset
      cases hset
    | ok s₁ =>
      obtain ⟨hgood, rfl⟩ := (hstep s₁).mp hset
      refine ⟨fun he => ⟨fun w hw => ?_, he⟩, fun he => he.2⟩
      rw [← Option.some.inj hw]
      exact hgood

/-! ## 2. Forms and their loops -/

/-- A form whose options all take values, and the loop that reads them. -/
structure Form.Loop (form : Form) {σ : Type} (opts : List (Opt σ)) (otherwise : Otherwise σ)
    (F : σ → (Arg → Option Arg) → σ) : Prop where
  names : (opts ++ otherwise.opts).map (·.name) = form.opts.map (·.1)
  plain : ∀ o ∈ form.opts, '=' ∉ o.1
  valued : ∀ o ∈ form.opts, o.2 ≠ .flag
  folds : Folds (opts ++ otherwise.opts) (Good form) F

namespace Form

theorem kind_mem {form : Form} {n : Arg} {k : Kind} (h : form.kind n = some k) :
    (n, k) ∈ form.opts := by
  obtain ⟨⟨m, k'⟩, hfind, rfl⟩ := Option.map_eq_some_iff.mp h
  obtain rfl : m = n := by simpa using List.find?_some hfind
  exact List.mem_of_find?_eq_some hfind

theorem kind_isSome {form : Form} {n : Arg} :
    (form.kind n).isSome = true ↔ n ∈ form.opts.map (·.1) := by
  unfold kind
  rw [Option.isSome_map, List.find?_isSome]
  simp

end Form

theorem find?_isSome_iff {σ : Type} {opts : List (Opt σ)} {n : Arg} :
    (opts.find? (·.name = n)).isSome = true ↔ n ∈ opts.map (·.name) := by
  rw [List.find?_isSome]
  simp

section FormLoop

variable {form : Form} {σ : Type} {opts : List (Opt σ)} {otherwise : Otherwise σ}
  {F : σ → (Arg → Option Arg) → σ}

theorem Form.Loop.valued_iff (h : form.Loop opts otherwise F) (n : Arg) :
    form.Valued n ↔ ((opts ++ otherwise.opts).find? (·.name = n)).isSome = true := by
  rw [find?_isSome_iff, h.names, ← Form.kind_isSome]
  constructor
  · intro ⟨k, hk, _⟩
    rw [hk]
    rfl
  · intro hs
    obtain ⟨k, hk⟩ := Option.isSome_iff_exists.mp hs
    exact ⟨k, hk, h.valued _ (Form.kind_mem hk)⟩

theorem Form.Loop.not_flag (h : form.Loop opts otherwise F) (n : Arg) : ¬ form.Flag n :=
  fun hf => h.valued _ (Form.kind_mem hf) rfl

theorem Form.Loop.isSome (h : form.Loop opts otherwise F) {items : List Item} {args : List Arg}
    (hs : Spelled form.Valued form.Flag items args) : ∀ i ∈ items, i.value.isSome = true := by
  intro i hi
  rcases hs.names i hi with ⟨_, hsome⟩ | ⟨hf, _⟩
  · exact hsome
  · exact absurd hf (h.not_flag _)

/-- **What the loop of a form reads.** -/
theorem Form.Loop.options_iff (h : form.Loop opts otherwise F) {args : List Arg} {s s' : σ} :
    options opts otherwise args s = .ok s' ↔ ∃ items, Spelled form.Valued form.Flag items args ∧
      (∀ i ∈ items, ∀ v, i.value = some v → Good form i.name v) ∧ s' = F s (last items) := by
  have hplain : ∀ opt ∈ opts ++ otherwise.opts, '=' ∉ opt.name := by
    intro opt ho
    have hin : opt.name ∈ form.opts.map (·.1) := by
      rw [← h.names]
      exact List.mem_map_of_mem ho
    obtain ⟨o, hof, hname⟩ := List.mem_map.mp hin
    rw [← hname]
    exact h.plain o hof
  rw [Cli.options_iff hplain h.valued_iff h.not_flag]
  refine exists_congr fun items => and_congr_right fun hspelled => ?_
  refine h.folds.applyAll_iff fun i hi => ?_
  rcases hspelled.names i hi with ⟨hv, hsome⟩ | ⟨hf, _⟩
  · exact ⟨hsome, (h.valued_iff _).mp hv⟩
  · exact absurd hf (h.not_flag _)

/-- A command of one operand: what it does with the options it has read. -/
theorem Form.Loop.operand_iff (h : form.Loop opts otherwise F) (hwords : form.words = [])
    (hone : form.operands = 1) (hreq : form.required = []) (tail : Arg → σ → Parse ServiceCall)
    (s : σ)
    (htail : ∀ a items c, tail a (F s (last items)) = .ok c ↔
      (∀ o ∈ form.opts, ∀ v, last items o.1 = some v → o.2.Final v) ∧
        c = form.call [a] (valuesOf form stollRead items)) {args : List Arg} {c : ServiceCall} :
    (take args >>= fun p => options opts otherwise p.2 s >>= fun o => tail p.1 o) = .ok c ↔
      form.Accepts args c := by
  constructor
  · intro hc
    obtain ⟨⟨a, rest⟩, htake, hc⟩ := bind_ok_iff.mp hc
    obtain ⟨o, ho, hc⟩ := bind_ok_iff.mp hc
    obtain rfl := take_iff.mp htake
    obtain ⟨items, hspelled, hgood, rfl⟩ := h.options_iff.mp ho
    obtain ⟨hfinal, rfl⟩ := (htail a items c).mp hc
    refine ⟨[a], items, ⟨⟨rest, ?_, hspelled⟩, hone.symm, ?_⟩, ⟨hgood, hfinal⟩, rfl⟩
    · rw [hwords]
      rfl
    · rw [hreq]
      intro n hn
      cases hn
  · intro ⟨operands, items, hshape, hlax, hc⟩
    obtain ⟨rest, rfl, hspelled⟩ := hshape.spelled
    obtain ⟨a, rfl⟩ := List.length_eq_one_iff.mp (hshape.operands.trans hone)
    rw [hwords]
    refine bind_ok_iff.mpr ⟨(a, rest), rfl, ?_⟩
    refine bind_ok_iff.mpr ⟨_, h.options_iff.mpr ⟨items, hspelled, hlax.each, rfl⟩, ?_⟩
    exact (htail a items c).mpr ⟨hlax.final, hc⟩

/-- A command without operands. -/
theorem Form.Loop.bare_iff (h : form.Loop opts otherwise F) (hwords : form.words = [])
    (hzero : form.operands = 0) (tail : σ → Parse ServiceCall) (s : σ)
    (htail : ∀ items c, (∀ i ∈ items, i.value.isSome = true) → (tail (F s (last items)) = .ok c ↔
      (∀ name ∈ form.required, ∃ i ∈ items, i.name = name) ∧
      (∀ o ∈ form.opts, ∀ v, last items o.1 = some v → o.2.Final v) ∧
        c = form.call [] (valuesOf form stollRead items))) {args : List Arg} {c : ServiceCall} :
    (options opts otherwise args s >>= tail) = .ok c ↔ form.Accepts args c := by
  constructor
  · intro hc
    obtain ⟨o, ho, hc⟩ := bind_ok_iff.mp hc
    obtain ⟨items, hspelled, hgood, rfl⟩ := h.options_iff.mp ho
    obtain ⟨hreq, hfinal, rfl⟩ := (htail items c (h.isSome hspelled)).mp hc
    refine ⟨[], items, ⟨⟨args, ?_, hspelled⟩, hzero.symm, hreq⟩, ⟨hgood, hfinal⟩, rfl⟩
    rw [hwords]
    rfl
  · intro ⟨operands, items, hshape, hlax, hc⟩
    obtain ⟨rest, rfl, hspelled⟩ := hshape.spelled
    obtain rfl := List.length_eq_zero_iff.mp (hshape.operands.trans hzero)
    rw [hwords]
    refine bind_ok_iff.mpr ⟨_, h.options_iff.mpr ⟨items, hspelled, hlax.each, rfl⟩, ?_⟩
    exact (htail items c (h.isSome hspelled)).mpr ⟨hshape.required, hlax.final, hc⟩

end FormLoop

/-! ## 3. The commands, one by one -/

/-- The last number, or what stands there without one. -/
def numberOr (w : Arg → Option Arg) (name : String) (n : Int) : Int :=
  ((w name.toList).map stollRead).getD n

theorem text_step {σ : Type} {name : String} {set : Arg → σ → σ} (good : Arg → Arg → Prop)
    (F : σ → (Arg → Option Arg) → σ) (hgood : ∀ v, good name.toList v)
    (hF : ∀ s v, F s (single name.toList v) = set v s) (v : Arg) (s s' : σ) :
    (text name set).set v s = .ok s' ↔ good name.toList v ∧ s' = F s (single name.toList v) := by
  rw [hF]
  exact ⟨fun h => ⟨hgood v, (Except.ok.inj h).symm⟩, fun h => by rw [h.2]; rfl⟩

theorem budget_step {σ : Type} {name : String} {set : Int → σ → σ} (good : Arg → Arg → Prop)
    (F : σ → (Arg → Option Arg) → σ) (hgood : ∀ v, good name.toList v ↔ (stoll v).isSome = true)
    (hF : ∀ s v, F s (single name.toList v) = set (stollRead v) s) (v : Arg) (s s' : σ) :
    (budget name set).set v s = .ok s' ↔ good name.toList v ∧ s' = F s (single name.toList v) := by
  rw [hF, hgood]
  unfold stollRead
  show (integer name.toList v).map (set · s) = _ ↔ _
  unfold integer
  cases hn : stoll v with
  | none => exact ⟨fun h => (by cases h), fun h => (by cases h.1)⟩
  | some n => exact ⟨fun h => ⟨rfl, (Except.ok.inj h).symm⟩, fun h => by rw [h.2]; rfl⟩

/-- The option of the commands that take a budget and nothing else. -/
theorem budget_loop (call : Arg → Int → ServiceCall) :
    (budgetForm call).Loop [] (.option (budget "--budget-nodes" fun n _ => n))
      (fun n w => numberOr w "--budget-nodes" n) where
  names := rfl
  plain := show ∀ o ∈ [("--budget-nodes".toList, Kind.budget)], '=' ∉ o.1 by decide
  valued := show ∀ o ∈ [("--budget-nodes".toList, Kind.budget)], o.2 ≠ .flag by decide
  folds := by
    refine ⟨fun _ => rfl, fun opt ho => ?_, fun s w w' => ?_⟩
    · obtain rfl := List.mem_singleton.mp ho
      exact budget_step (Good (budgetForm call)) (fun n w => numberOr w "--budget-nodes" n)
        (fun _ => Iff.rfl) fun _ _ => rfl
    · simp [numberOr, Option.map_or]

theorem final_number {w : Arg → Option Arg} {name : String} {n : Int} (hn : 0 ≤ n) :
    0 ≤ numberOr w name n ↔ ∀ v, w name.toList = some v → 0 ≤ stollRead v := by
  unfold numberOr
  cases hw : w name.toList with
  | none => exact ⟨fun _ v hv => (by cases hv), fun _ => hn⟩
  | some v =>
    constructor
    · intro h v' hv'
      rw [← Option.some.inj hv']
      exact h
    · intro h
      exact h v rfl

theorem final_choice {w : Option Arg} {a : Arg} {choices : List Arg} (ha : a ∈ choices) :
    w.getD a ∈ choices ↔ ∀ v, w = some v → v ∈ choices := by
  cases w with
  | none => exact ⟨fun _ v hv => (by cases hv), fun _ => ha⟩
  | some v =>
    constructor
    · intro h v' hv'
      rw [← Option.some.inj hv']
      exact h
    · intro h
      exact h v rfl

theorem handleBudget_iff (call : Arg → Int → ServiceCall) (args : List Arg) (c : ServiceCall) :
    handleBudget call args = .ok c ↔ (budgetForm call).Accepts args c := by
  refine (budget_loop call).operand_iff rfl rfl rfl (fun handle n => do
    requireNonnegative "--budget-nodes".toList n
    return call handle n) 100 fun a items c => ?_
  rw [then_ok_iff, requireNonnegative_iff, final_number (by decide), return_iff]
  show _ ↔ (∀ o ∈ [("--budget-nodes".toList, Kind.budget)], _) ∧ _
  rw [List.forall_mem_singleton]
  exact Iff.rfl

/-! ### Commands without options -/

/-- No options are spelled by no words. -/
theorem spelled_none {form : Form} (h : form.opts = []) {items : List Item} {args : List Arg} :
    Spelled form.Valued form.Flag items args ↔ items = [] ∧ args = [] := by
  have hkind (n : Arg) : form.kind n = none := by
    unfold Form.kind
    rw [h]
    rfl
  constructor
  · intro hs
    cases hs with
    | nil => exact ⟨rfl, rfl⟩
    | pair hn _ | equals hn _ =>
      obtain ⟨k, hk, _⟩ := hn
      rw [hkind] at hk
      cases hk
    | flag hn _ =>
      rw [Form.Flag, hkind] at hn
      cases hn
  · intro ⟨hi, ha⟩
    rw [hi, ha]
    exact .nil

theorem lax_nil {form : Form} : Lax form [] where
  each i hi := by cases hi
  final o _ v hv := by cases hv

theorem handleForm_iff {words args : List Arg} {call : Arg → ServiceCall} {c : ServiceCall} :
    (handleForm words call).Accepts args c ↔ ∃ a, args = words ++ [a] ∧ c = call a := by
  constructor
  · intro ⟨operands, items, hshape, _, hc⟩
    obtain ⟨rest, rfl, hspelled⟩ := hshape.spelled
    obtain ⟨rfl, rfl⟩ := (spelled_none rfl).mp hspelled
    obtain ⟨a, rfl⟩ := List.length_eq_one_iff.mp hshape.operands
    exact ⟨a, List.append_nil _, hc⟩
  · intro ⟨a, ha, hc⟩
    refine ⟨[a], [], ⟨⟨[], ?_, .nil⟩, rfl, fun _ hn => by cases hn⟩, lax_nil, hc⟩
    rw [ha, List.append_nil]
    rfl

theorem bareForm_iff {args : List Arg} {call c : ServiceCall} :
    (bareForm call).Accepts args c ↔ args = [] ∧ c = call := by
  constructor
  · intro ⟨operands, items, hshape, _, hc⟩
    obtain ⟨rest, rfl, hspelled⟩ := hshape.spelled
    obtain ⟨rfl, rfl⟩ := (spelled_none rfl).mp hspelled
    obtain rfl := List.length_eq_zero_iff.mp hshape.operands
    exact ⟨rfl, hc⟩
  · intro ⟨ha, hc⟩
    exact ⟨[], [], ⟨⟨[], ha, .nil⟩, rfl, fun _ hn => by cases hn⟩, lax_nil, hc⟩

theorem requireEnd_return_iff {args : List Arg} {call c : ServiceCall} :
    (requireEnd args >>= fun _ => pure call) = .ok c ↔ args = [] ∧ c = call := by
  rw [then_ok_iff, requireEnd_iff, return_iff]

/-- A handle and nothing else. -/
theorem handleAlone_ok {call : Arg → ServiceCall} {args : List Arg} {c : ServiceCall} :
    handleAlone call args = .ok c ↔ ∃ a, args = [a] ∧ c = call a := by
  constructor
  · intro h
    obtain ⟨⟨a, rest⟩, htake, h⟩ := bind_ok_iff.mp h
    obtain ⟨hrest, hc⟩ := requireEnd_return_iff.mp h
    exact ⟨a, (take_iff.mp htake).trans (congrArg _ hrest), hc⟩
  · intro ⟨a, ha, hc⟩
    rw [ha]
    exact bind_ok_iff.mpr ⟨(a, []), rfl, requireEnd_return_iff.mpr ⟨rfl, hc⟩⟩

theorem handleAlone_iff (call : Arg → ServiceCall) (args : List Arg) (c : ServiceCall) :
    handleAlone call args = .ok c ↔ (handleForm [] call).Accepts args c := by
  rw [handleForm_iff]
  exact handleAlone_ok

theorem backup_iff (args : List Arg) (c : ServiceCall) :
    backup args = .ok c ↔ (handleForm [] .backup).Accepts args c :=
  handleAlone_iff .backup args c

theorem status_iff (args : List Arg) (c : ServiceCall) :
    status args = .ok c ↔ (bareForm .status).Accepts args c :=
  requireEnd_return_iff.trans bareForm_iff.symm

theorem artifacts_iff (args : List Arg) (c : ServiceCall) :
    artifacts args = .ok c ↔ (bareForm .artifacts).Accepts args c :=
  requireEnd_return_iff.trans bareForm_iff.symm

theorem materialize_iff (args : List Arg) (c : ServiceCall) :
    materialize args = .ok c ↔ (handleForm ["function".toList] .materialize).Accepts args c := by
  have hword (entity : Arg) (rest : List Arg) :
      materialize (entity :: rest) = if entity ≠ "function".toList then
        .error (.usage "materialize requires the function subcommand".toList)
        else handleAlone .materialize rest := rfl
  rw [handleForm_iff]
  cases args with
  | nil => exact ⟨fun h => (by cases h), fun ⟨_, h, _⟩ => (by cases h)⟩
  | cons entity rest =>
    rw [hword]
    by_cases he : entity = "function".toList
    · rw [if_neg fun hn => hn he, handleAlone_ok, he]
      exact exists_congr fun a => and_congr_left fun _ => (List.cons_inj_right _).symm
    · rw [if_pos he]
      exact ⟨fun h => (by cases h), fun ⟨_, h, _⟩ => absurd (List.cons.inj h).1 he⟩

/-! ### `reindex` -/

theorem reindex_loop : reindexForm.Loop [] (.option (text "--index" fun value _ => value))
    (fun index w => (w "--index".toList).getD index) where
  names := rfl
  plain := by decide
  valued := by decide
  folds := by
    refine ⟨fun _ => rfl, fun opt ho => ?_, fun s w w' => ?_⟩
    · obtain rfl := List.mem_singleton.mp ho
      exact text_step (Good reindexForm) (fun index w => (w "--index".toList).getD index)
        (fun _ => trivial) fun _ _ => rfl
    · simp

theorem reindex_iff (args : List Arg) (c : ServiceCall) :
    reindex args = .ok c ↔ reindexForm.Accepts args c := by
  refine reindex_loop.operand_iff rfl rfl rfl (fun artifact index => do
    requireChoice "--index".toList index indexChoices
    return .reindex artifact index) "full".toList fun a items c => ?_
  rw [then_ok_iff, requireChoice_iff, final_choice (by decide), return_iff]
  show _ ↔ (∀ o ∈ [("--index".toList, indexKind)], _) ∧ _
  rw [List.forall_mem_singleton]
  exact Iff.rfl

/-! ### `show` -/

def showOver (o : ShowOptions) (w : Arg → Option Arg) : ShowOptions where
  view := (w "--view".toList).getD o.view
  kind := (w "--kind".toList).or o.kind
  budget := numberOr w "--budget-nodes" o.budget

theorem show_loop : showForm.Loop showOpts (.unknown "show".toList) showOver where
  names := rfl
  plain := by decide
  valued := by decide
  folds := by
    refine ⟨fun _ => rfl, fun opt ho => ?_, fun s w w' => ?_⟩
    · simp only [showOpts, Otherwise.opts, List.append_nil, List.mem_cons, List.not_mem_nil,
        or_false] at ho
      rcases ho with rfl | rfl | rfl
      · exact text_step (Good showForm) showOver (fun _ => trivial) fun _ _ => rfl
      · exact text_step (Good showForm) showOver (fun _ => trivial) fun _ _ => rfl
      · exact budget_step (Good showForm) showOver (fun _ => Iff.rfl) fun _ _ => rfl
    · simp [showOver, numberOr, Option.map_or, Option.or_assoc]

theorem show_iff (args : List Arg) (c : ServiceCall) :
    «show» args = .ok c ↔ showForm.Accepts args c := by
  refine show_loop.operand_iff rfl rfl rfl (fun handle o => do
    requireChoice "--view".toList o.view viewChoices
    o.kind.elim (pure ()) fun kind => requireChoice "--kind".toList kind kindChoices
    requireNonnegative "--budget-nodes".toList o.budget
    return .show handle o.view o.kind o.budget) ⟨"summary".toList, none, 100⟩ fun a items c => ?_
  have hkind : ((showOver ⟨"summary".toList, none, 100⟩ (last items)).kind.elim (pure ())
      fun kind => requireChoice "--kind".toList kind kindChoices) = .ok () ↔
        ∀ v, last items "--kind".toList = some v → v ∈ kindChoices := by
    show ((last items "--kind".toList).or none).elim _ _ = _ ↔ _
    rw [Option.or_none]
    cases last items "--kind".toList with
    | none => exact ⟨fun _ v hv => (by cases hv), fun _ => rfl⟩
    | some v => exact requireChoice_iff.trans ⟨fun h w hw => Option.some.inj hw ▸ h, fun h => h v rfl⟩
  rw [then_ok_iff, then_ok_iff, then_ok_iff, hkind, requireChoice_iff, requireNonnegative_iff,
    return_iff]
  show ((last items "--view".toList).getD "summary".toList ∈ _ ∧ _ ∧
    0 ≤ numberOr (last items) "--budget-nodes" 100 ∧ c = .show a _ ((last items _).or none) _) ↔
      (∀ o ∈ [("--view".toList, Kind.choice viewChoices false),
        ("--kind".toList, .choice kindChoices false), ("--budget-nodes".toList, .budget)], _) ∧ _
  rw [final_choice (by decide), final_number (by decide), Option.or_none, List.forall_mem_cons,
    List.forall_mem_cons, List.forall_mem_singleton, and_assoc, and_assoc]
  exact Iff.rfl

/-! ### `slice` -/

def sliceOver (o : SliceOptions) (w : Arg → Option Arg) : SliceOptions where
  direction := (w "--direction".toList).getD o.direction
  relations := (w "--relations".toList).getD o.relations
  budgetNodes := numberOr w "--budget-nodes" o.budgetNodes
  budgetDepth := numberOr w "--budget-depth" o.budgetDepth

theorem slice_loop : sliceForm.Loop sliceOpts (.unknown "slice".toList) sliceOver where
  names := rfl
  plain := by decide
  valued := by decide
  folds := by
    refine ⟨fun _ => rfl, fun opt ho => ?_, fun s w w' => ?_⟩
    · simp only [sliceOpts, Otherwise.opts, List.append_nil, List.mem_cons, List.not_mem_nil,
        or_false] at ho
      rcases ho with rfl | rfl | rfl | rfl
      · exact text_step (Good sliceForm) sliceOver (fun _ => trivial) fun _ _ => rfl
      · exact text_step (Good sliceForm) sliceOver (fun _ => trivial) fun _ _ => rfl
      · exact budget_step (Good sliceForm) sliceOver (fun _ => Iff.rfl) fun _ _ => rfl
      · exact budget_step (Good sliceForm) sliceOver (fun _ => Iff.rfl) fun _ _ => rfl
    · simp [sliceOver, numberOr, Option.map_or]

/-- A value that is not looked at. -/
theorem final_text {w : Option Arg} : (∀ v, w = some v → Kind.text.Final v) ↔ True :=
  iff_true_intro fun _ _ => trivial

theorem slice_iff (args : List Arg) (c : ServiceCall) :
    slice args = .ok c ↔ sliceForm.Accepts args c := by
  refine slice_loop.operand_iff rfl rfl rfl (fun handle o => do
    requireChoice "--direction".toList o.direction directionChoices
    requireNonnegative "--budget-nodes".toList o.budgetNodes
    requireNonnegative "--budget-depth".toList o.budgetDepth
    return .slice handle o.direction (split o.relations ',') o.budgetNodes o.budgetDepth)
    ⟨"backward".toList, "operand,control".toList, 100, 12⟩ fun a items c => ?_
  rw [then_ok_iff, then_ok_iff, then_ok_iff, requireChoice_iff, requireNonnegative_iff,
    requireNonnegative_iff, return_iff]
  show ((last items "--direction".toList).getD "backward".toList ∈ _ ∧
    0 ≤ numberOr (last items) "--budget-nodes" 100 ∧
    0 ≤ numberOr (last items) "--budget-depth" 12 ∧ _) ↔
      (∀ o ∈ [("--direction".toList, directionKind), ("--relations".toList, Kind.text),
        ("--budget-nodes".toList, .budget), ("--budget-depth".toList, .budget)], _) ∧ _
  rw [final_choice (by decide), final_number (by decide), final_number (by decide),
    List.forall_mem_cons, List.forall_mem_cons, List.forall_mem_cons, List.forall_mem_singleton,
    final_text, true_and, and_assoc, and_assoc]
  exact Iff.rfl

/-! ### The traces -/

def traceOver (o : TraceOptions) (w : Arg → Option Arg) : TraceOptions where
  selector := o.selector
  detail := (w "--detail".toList).getD o.detail
  «include» := (w "--include".toList).getD o.include
  budgetNodes := numberOr w "--budget-nodes" o.budgetNodes
  budgetDepth := numberOr w "--budget-depth" o.budgetDepth

def returnOver (o : TraceOptions) (w : Arg → Option Arg) : TraceOptions :=
  { traceOver o w with selector := (w "--return".toList).getD o.selector }

theorem traceStores_loop :
    traceStoresForm.Loop traceStoresOpts (.unknown "trace-stores".toList) traceOver where
  names := rfl
  plain := by decide
  valued := by decide
  folds := by
    refine ⟨fun _ => rfl, fun opt ho => ?_, fun s w w' => ?_⟩
    · simp only [traceStoresOpts, Otherwise.opts, List.append_nil, List.mem_cons,
        List.not_mem_nil, or_false] at ho
      rcases ho with rfl | rfl | rfl | rfl
      · exact text_step (Good traceStoresForm) traceOver (fun _ => trivial) fun _ _ => rfl
      · exact text_step (Good traceStoresForm) traceOver (fun _ => trivial) fun _ _ => rfl
      · exact budget_step (Good traceStoresForm) traceOver (fun _ => Iff.rfl) fun _ _ => rfl
      · exact budget_step (Good traceStoresForm) traceOver (fun _ => Iff.rfl) fun _ _ => rfl
    · simp [traceOver, numberOr, Option.map_or]

theorem traceReturn_loop :
    traceReturnForm.Loop traceReturnOpts (.unknown "trace-return".toList) returnOver where
  names := rfl
  plain := by decide
  valued := by decide
  folds := by
    refine ⟨fun _ => rfl, fun opt ho => ?_, fun s w w' => ?_⟩
    · simp only [traceReturnOpts, traceStoresOpts, Otherwise.opts, List.append_nil, List.mem_cons,
        List.not_mem_nil, or_false] at ho
      rcases ho with rfl | rfl | rfl | rfl | rfl
      · exact text_step (Good traceReturnForm) returnOver (fun _ => trivial) fun _ _ => rfl
      · exact text_step (Good traceReturnForm) returnOver (fun _ => trivial) fun _ _ => rfl
      · exact text_step (Good traceReturnForm) returnOver (fun _ => trivial) fun _ _ => rfl
      · exact budget_step (Good traceReturnForm) returnOver (fun _ => Iff.rfl) fun _ _ => rfl
      · exact budget_step (Good traceReturnForm) returnOver (fun _ => Iff.rfl) fun _ _ => rfl
    · simp [returnOver, traceOver, numberOr, Option.map_or]

/-- The checks behind the options of the traces. -/
theorem traceChecks_iff {o : TraceOptions} {w : Arg → Option Arg}
    (hn : o.budgetNodes = numberOr w "--budget-nodes" 50)
    (hd : o.budgetDepth = numberOr w "--budget-depth" 8)
    (ht : o.detail = (w "--detail".toList).getD "summary".toList) :
    traceChecks o = .ok () ↔
      ∀ p ∈ traceStoresForm.opts, ∀ v, w p.1 = some v → p.2.Final v := by
  unfold traceChecks
  rw [then_ok_iff, then_ok_iff, requireChoice_iff, requireNonnegative_iff, requireNonnegative_iff,
    hn, hd, ht, final_choice (by decide), final_number (by decide), final_number (by decide)]
  show _ ↔ ∀ p ∈ [("--detail".toList, Kind.choice detailChoices false),
    ("--include".toList, .text), ("--budget-nodes".toList, .budget),
    ("--budget-depth".toList, .budget)], _
  rw [List.forall_mem_cons, List.forall_mem_cons, List.forall_mem_cons, List.forall_mem_singleton,
    final_text, true_and]
  exact ⟨fun h => ⟨h.2.2, h.1, h.2.1⟩, fun h => ⟨h.2.1, h.2.2, h.1⟩⟩

theorem traceStores_iff (args : List Arg) (c : ServiceCall) :
    traceStores args = .ok c ↔ traceStoresForm.Accepts args c := by
  refine traceStores_loop.operand_iff rfl rfl rfl (fun handle o => do
    traceChecks o
    return .traceStores handle o.budgetNodes o.budgetDepth o.detail (sectionsOf o.include))
    traceDefaults fun a items c => ?_
  rw [then_ok_iff, return_iff, traceChecks_iff (w := last items) rfl rfl rfl]
  exact Iff.rfl

theorem traceReturn_iff (args : List Arg) (c : ServiceCall) :
    traceReturn args = .ok c ↔ traceReturnForm.Accepts args c := by
  refine traceReturn_loop.operand_iff rfl rfl rfl (fun handle o => do
    traceChecks o
    return .traceReturn handle o.selector o.budgetNodes o.budgetDepth o.detail
      (sectionsOf o.include)) traceDefaults fun a items c => ?_
  rw [then_ok_iff, return_iff, traceChecks_iff (w := last items) rfl rfl rfl]
  show _ ↔ (∀ o ∈ ("--return".toList, Kind.text) :: traceStoresForm.opts, _) ∧ _
  rw [List.forall_mem_cons, final_text, true_and]
  exact Iff.rfl

/-! ### `graph` -/

def graphOver (o : GraphOptions) (w : Arg → Option Arg) : GraphOptions where
  direction := (w "--direction".toList).getD o.direction
  format := (w "--format".toList).getD o.format
  budget := numberOr w "--budget-nodes" o.budget

theorem graph_loop : graphForm.Loop graphOpts
    (.option (budget "--budget-nodes" fun n o => { o with budget := n })) graphOver where
  names := rfl
  plain := by decide
  valued := by decide
  folds := by
    refine ⟨fun _ => rfl, fun opt ho => ?_, fun s w w' => ?_⟩
    · simp only [graphOpts, Otherwise.opts, List.cons_append, List.nil_append, List.mem_cons,
        List.not_mem_nil, or_false] at ho
      rcases ho with rfl | rfl | rfl | rfl
      · exact text_step (Good graphForm) graphOver (fun _ => trivial) fun _ _ => rfl
      · exact text_step (Good graphForm) graphOver (fun _ => trivial) fun _ _ => rfl
      · -- the view is checked wherever it stands, and dropped
        intro v s s'
        show (requireChoice _ v ["value".toList]).map (fun _ => s) = .ok s' ↔
          v ∈ ["value".toList] ∧ s' = s
        unfold requireChoice
        by_cases hv : v ∈ ["value".toList]
        · rw [if_pos hv]
          exact ⟨fun h => ⟨hv, (Except.ok.inj h).symm⟩, fun h => by rw [h.2]; rfl⟩
        · rw [if_neg hv]
          exact ⟨fun h => (by cases h), fun h => absurd h.1 hv⟩
      · exact budget_step (Good graphForm) graphOver (fun _ => Iff.rfl) fun _ _ => rfl
    · simp [graphOver, numberOr, Option.map_or]

theorem graph_iff (args : List Arg) (c : ServiceCall) :
    graph args = .ok c ↔ graphForm.Accepts args c := by
  refine graph_loop.operand_iff rfl rfl rfl (fun handle o => do
    requireChoice "--direction".toList o.direction directionChoices
    requireChoice "--format".toList o.format formatChoices
    requireNonnegative "--budget-nodes".toList o.budget
    return .graph handle o.direction o.budget o.format)
    ⟨"backward".toList, "json".toList, 100⟩ fun a items c => ?_
  rw [then_ok_iff, then_ok_iff, then_ok_iff, requireChoice_iff, requireChoice_iff,
    requireNonnegative_iff, return_iff]
  show ((last items "--direction".toList).getD "backward".toList ∈ _ ∧
    (last items "--format".toList).getD "json".toList ∈ _ ∧
    0 ≤ numberOr (last items) "--budget-nodes" 100 ∧ _) ↔
      (∀ o ∈ [("--direction".toList, directionKind),
        ("--format".toList, Kind.choice formatChoices false),
        ("--view".toList, .choice ["value".toList] true), ("--budget-nodes".toList, .budget)],
        _) ∧ _
  have hview : (∀ v, last items "--view".toList = some v →
      (Kind.choice ["value".toList] true).Final v) ↔ True := iff_true_intro fun _ _ => trivial
  rw [final_choice (by decide), final_choice (by decide), final_number (by decide),
    List.forall_mem_cons, List.forall_mem_cons, List.forall_mem_cons, List.forall_mem_singleton,
    hview, true_and, and_assoc, and_assoc]
  exact Iff.rfl

/-! ### `init`, `capabilities` and `functions` -/

theorem init_loop : initForm.Loop [] (.option (text "--name" fun value _ => some value))
    (fun name w => (w "--name".toList).or name) where
  names := rfl
  plain := by decide
  valued := by decide
  folds := by
    refine ⟨fun _ => rfl, fun opt ho => ?_, fun s w w' => ?_⟩
    · obtain rfl := List.mem_singleton.mp ho
      exact text_step (Good initForm) (fun name w => (w "--name".toList).or name)
        (fun _ => trivial) fun _ _ => rfl
    · simp [Option.or_assoc]

theorem capabilities_loop :
    capabilitiesForm.Loop [] (.option (text "--artifact" fun value _ => some value))
      (fun artifact w => (w "--artifact".toList).or artifact) where
  names := rfl
  plain := by decide
  valued := by decide
  folds := by
    refine ⟨fun _ => rfl, fun opt ho => ?_, fun s w w' => ?_⟩
    · obtain rfl := List.mem_singleton.mp ho
      exact text_step (Good capabilitiesForm) (fun artifact w => (w "--artifact".toList).or artifact)
        (fun _ => trivial) fun _ _ => rfl
    · simp [Option.or_assoc]

def functionsOver (o : FunctionsOptions) (w : Arg → Option Arg) : FunctionsOptions where
  artifact := (w "--artifact".toList).or o.artifact
  pattern := (w "--match".toList).or o.pattern

theorem functions_loop :
    functionsForm.Loop [text "--artifact" fun value o => { o with artifact := some value }]
      (.option (text "--match" fun value o => { o with pattern := some value }))
      functionsOver where
  names := rfl
  plain := by decide
  valued := by decide
  folds := by
    refine ⟨fun _ => rfl, fun opt ho => ?_, fun s w w' => ?_⟩
    · simp only [Otherwise.opts, List.cons_append, List.nil_append, List.mem_cons,
        List.not_mem_nil, or_false] at ho
      rcases ho with rfl | rfl
      · exact text_step (Good functionsForm) functionsOver (fun _ => trivial) fun _ _ => rfl
      · exact text_step (Good functionsForm) functionsOver (fun _ => trivial) fun _ _ => rfl
    · simp [functionsOver, Option.or_assoc]

/-- An option with a value is written where it has a last value. -/
theorem last_isSome {items : List Item} (h : ∀ i ∈ items, i.value.isSome = true) {name : Arg} :
    (last items name).isSome = true ↔ ∃ i ∈ items, i.name = name := by
  induction items with
  | nil => simp [last]
  | cons i items ih =>
    have ih := ih fun j hj => h j (List.mem_cons_of_mem i hj)
    have hi := h i List.mem_cons_self
    rw [last, Option.isSome_or, Bool.or_eq_true, ih, List.exists_mem_cons_iff, or_comm]
    by_cases hname : i.name = name
    · simp [hname, hi]
    · simp [hname]

/-- What `init` does with the last name. -/
def initCall : Option Arg → Parse ServiceCall
  | none => .error (.usage "init requires --name".toList)
  | some name => return .init name

theorem init_iff (args : List Arg) (c : ServiceCall) :
    init args = .ok c ↔ initForm.Accepts args c := by
  refine init_loop.bare_iff rfl rfl initCall none fun items c hi => ?_
  have hreq : (∀ name ∈ initForm.required, ∃ i ∈ items, i.name = name) ↔
      (last items "--name".toList).isSome = true := by
    show (∀ name ∈ ["--name".toList], _) ↔ _
    rw [List.forall_mem_singleton, last_isSome hi]
  have hfinal : (∀ o ∈ initForm.opts, ∀ v, last items o.1 = some v → o.2.Final v) ↔ True := by
    show (∀ o ∈ [("--name".toList, Kind.text)], _) ↔ _
    rw [List.forall_mem_singleton, final_text]
  rw [hreq, hfinal, true_and, Option.or_none]
  show _ ↔ _ ∧ c = .init ((last items "--name".toList).getD [])
  cases last items "--name".toList with
  | none => exact ⟨fun h => (by cases h), fun h => (by cases h.1)⟩
  | some name => exact return_iff.trans ⟨fun h => ⟨rfl, h⟩, fun h => h.2⟩

theorem capabilities_iff (args : List Arg) (c : ServiceCall) :
    capabilities args = .ok c ↔ capabilitiesForm.Accepts args c := by
  refine capabilities_loop.bare_iff rfl rfl (fun artifact => return .capabilities artifact) none
    fun items c _ => ?_
  show _ ↔ (∀ name ∈ [], _) ∧ (∀ o ∈ [("--artifact".toList, Kind.text)], _) ∧
    c = .capabilities (last items "--artifact".toList)
  rw [return_iff, List.forall_mem_singleton, final_text, true_and, Option.or_none]
  exact ⟨fun h => ⟨fun _ hn => (by cases hn), h⟩, fun h => h.2⟩

theorem functions_iff (args : List Arg) (c : ServiceCall) :
    functions args = .ok c ↔ functionsForm.Accepts args c := by
  refine functions_loop.bare_iff rfl rfl (fun o => return .functions o.artifact o.pattern)
    ⟨none, none⟩ fun items c _ => ?_
  show ((pure _ : Parse ServiceCall) = .ok c) ↔ (∀ name ∈ [], _) ∧
    (∀ o ∈ [("--artifact".toList, Kind.text), ("--match".toList, .text)], _) ∧
      c = .functions (last items "--artifact".toList) (last items "--match".toList)
  rw [return_iff, List.forall_mem_cons, List.forall_mem_singleton, final_text, final_text,
    true_and, true_and]
  show c = .functions ((last items _).or none) ((last items _).or none) ↔ _
  rw [Option.or_none, Option.or_none]
  exact ⟨fun h => ⟨fun _ hn => (by cases hn), h⟩, fun h => h.2⟩

/-! ### `ingest` -/

theorem kind_cons (m n : Arg) (k : Kind) (opts : List (Arg × Kind)) :
    (((m, k) :: opts).find? (·.1 = n)).map (·.2) =
      if m = n then some k else (opts.find? (·.1 = n)).map (·.2) := by
  rw [List.find?_cons]
  by_cases h : m = n
  · rw [if_pos h, decide_eq_true h]
    rfl
  · rw [if_neg h, decide_eq_false h]

theorem ingest_kind (n : Arg) : ingestForm.kind n =
    if "--index".toList = n then some indexKind
    else if "--refresh".toList = n then some .flag else none := by
  show (List.find? (·.1 = n) [("--index".toList, indexKind), ("--refresh".toList, Kind.flag)]).map _ = _
  rw [kind_cons, kind_cons]
  rfl

theorem ingest_valued {n : Arg} (h : ingestForm.Valued n) : n = "--index".toList := by
  obtain ⟨k, hk, hne⟩ := h
  rw [ingest_kind] at hk
  split at hk
  · rename_i hn
    exact hn.symm
  · split at hk
    · exact absurd (Option.some.inj hk).symm hne
    · cases hk

theorem ingest_flag {n : Arg} (h : ingestForm.Flag n) : n = "--refresh".toList := by
  rw [Form.Flag, ingest_kind] at h
  split at h
  · cases h
  · split at h
    · rename_i hn
      exact hn.symm
    · cases h

theorem ingest_index : ingestForm.Valued "--index".toList := ⟨indexKind, rfl, by decide⟩

/-- What has been read of `ingest`, with more options behind it. -/
def ingestOver (index : Arg) (refresh : Bool) (items : List Item) : Arg × Bool :=
  ((last items "--index".toList).getD index, refresh || items.any (·.name = "--refresh".toList))

theorem ingestOver_index (index v : Arg) (refresh : Bool) (items : List Item) :
    ingestOver index refresh (⟨"--index".toList, some v⟩ :: items) = ingestOver v refresh items := by
  have hne : ("--index".toList : Arg) ≠ "--refresh".toList := by decide
  unfold ingestOver
  rw [last_same, Option.getD_or, List.any_cons, decide_eq_false hne, Bool.false_or]
  rfl

theorem ingestOver_refresh (index : Arg) (refresh : Bool) (items : List Item) :
    ingestOver index refresh (⟨"--refresh".toList, none⟩ :: items) =
      ingestOver index true items := by
  have hany : List.any (⟨"--refresh".toList, none⟩ :: items) (·.name = "--refresh".toList) = true :=
    List.any_eq_true.mpr ⟨_, List.mem_cons_self, decide_eq_true rfl⟩
  unfold ingestOver
  rw [last_flag, hany, Bool.or_true, Bool.true_or]

theorem ingestOptions_equals (v : Arg) (rest : List Arg) (index : Arg) (refresh : Bool) :
    ingestOptions (("--index".toList ++ '=' :: v) :: rest) index refresh =
      ingestOptions rest v refresh := by
  have hplain : '=' ∉ "--refresh".toList := by decide
  have hrefresh : ¬ "--index".toList ++ '=' :: v = "--refresh".toList :=
    fun h => not_equals hplain h.symm
  have hlength : "--index=".length = "--index".toList.length + 1 := rfl
  refine (ingestOptions.eq_def _ _ _).trans ?_
  show (if _ then _ else if _ then _ else _) = _
  rw [if_neg hrefresh, if_pos (withEquals_iff.mpr ⟨v, rfl⟩), hlength, withEquals_value]

theorem ingestOptions_pair (v : Arg) (rest : List Arg) (index : Arg) (refresh : Bool) :
    ingestOptions ("--index".toList :: v :: rest) index refresh = ingestOptions rest v refresh := rfl

/-- **What the loop of `ingest` reads.** -/
theorem ingestOptions_iff {args : List Arg} {index : Arg} {refresh : Bool} {r : Arg × Bool} :
    ingestOptions args index refresh = .ok r ↔
      ∃ items, Spelled ingestForm.Valued ingestForm.Flag items args ∧
        r = ingestOver index refresh items := by
  constructor
  · intro h
    fun_induction ingestOptions args index refresh with
    | case1 index refresh =>
      obtain rfl := Except.ok.inj h
      refine ⟨[], .nil, ?_⟩
      show _ = (index, refresh || false)
      rw [Bool.or_false]
    | case2 rest index refresh ih =>
      obtain ⟨items, hspelled, hr⟩ := ih h
      refine ⟨⟨"--refresh".toList, none⟩ :: items, .flag rfl hspelled, ?_⟩
      rw [hr, ingestOver_refresh]
    | case3 a rest index refresh hrefresh heq ih =>
      obtain ⟨v, rfl⟩ := withEquals_iff.mp heq
      obtain ⟨items, hspelled, hr⟩ := ih h
      refine ⟨⟨"--index".toList, some v⟩ :: items, .equals ingest_index hspelled, ?_⟩
      have hlength : "--index=".length = "--index".toList.length + 1 := rfl
      rw [hr, ingestOver_index, hlength, withEquals_value]
    | case4 a rest index refresh hrefresh heq hname => cases h
    | case5 a index refresh hrefresh heq hname => cases h
    | case6 a index refresh hrefresh heq hname value rest ih =>
      obtain rfl := not_not.mp hname
      obtain ⟨items, hspelled, hr⟩ := ih h
      refine ⟨⟨"--index".toList, some value⟩ :: items, .pair ingest_index hspelled, ?_⟩
      rw [hr, ingestOver_index]
  · intro ⟨items, hspelled, hr⟩
    rw [hr]
    clear hr
    induction hspelled generalizing index refresh with
    | nil =>
      show _ = Except.ok (index, refresh || false)
      rw [Bool.or_false]
      rfl
    | pair hn _ ih =>
      obtain rfl := ingest_valued hn
      rw [ingestOptions_pair, ingestOver_index]
      exact ih
    | equals hn _ ih =>
      obtain rfl := ingest_valued hn
      rw [ingestOptions_equals, ingestOver_index]
      exact ih
    | flag hn _ ih =>
      obtain rfl := ingest_flag hn
      rw [ingestOver_refresh]
      unfold ingestOptions
      rw [if_pos rfl]
      exact ih

theorem ingestForm_accepts {args : List Arg} {c : ServiceCall} :
    ingestForm.Accepts args c ↔ ∃ path items rest, args = "llvm".toList :: path :: rest ∧
      Spelled ingestForm.Valued ingestForm.Flag items rest ∧
      (ingestOver "catalog".toList false items).1 ∈ indexChoices ∧
      c = .ingest path (ingestOver "catalog".toList false items).1
        (ingestOver "catalog".toList false items).2 := by
  have hfinal (items : List Item) :
      (∀ o ∈ ingestForm.opts, ∀ v, last items o.1 = some v → o.2.Final v) ↔
        (last items "--index".toList).getD "catalog".toList ∈ indexChoices := by
    show (∀ o ∈ [("--index".toList, indexKind), ("--refresh".toList, Kind.flag)], _) ↔ _
    rw [List.forall_mem_cons, List.forall_mem_singleton, final_choice (by decide)]
    exact ⟨fun h => h.1, fun h => ⟨h, fun _ _ => trivial⟩⟩
  constructor
  · intro ⟨operands, items, hshape, hlax, hc⟩
    obtain ⟨rest, rfl, hspelled⟩ := hshape.spelled
    obtain ⟨path, rfl⟩ := List.length_eq_one_iff.mp hshape.operands
    exact ⟨path, items, rest, rfl, hspelled, (hfinal items).mp hlax.final, hc⟩
  · intro ⟨path, items, rest, ha, hspelled, hchoice, hc⟩
    refine ⟨[path], items, ⟨⟨rest, ha, hspelled⟩, rfl, fun _ hn => by cases hn⟩, ⟨?_, ?_⟩, hc⟩
    · intro i hi v _
      rcases hspelled.names i hi with ⟨hn, _⟩ | ⟨hn, _⟩
      · rw [ingest_valued hn]
        trivial
      · rw [ingest_flag hn]
        trivial
    · exact (hfinal items).mpr hchoice

theorem ingestLlvm_ok {args : List Arg} {c : ServiceCall} :
    ingestLlvm args = .ok c ↔ ∃ path items rest, args = path :: rest ∧
      Spelled ingestForm.Valued ingestForm.Flag items rest ∧
      (ingestOver "catalog".toList false items).1 ∈ indexChoices ∧
      c = .ingest path (ingestOver "catalog".toList false items).1
        (ingestOver "catalog".toList false items).2 := by
  constructor
  · intro h
    obtain ⟨⟨path, rest⟩, htake, hrest⟩ := bind_ok_iff.mp h
    obtain ⟨r, hr, hchecks⟩ := bind_ok_iff.mp hrest
    obtain ⟨items, hspelled, rfl⟩ := ingestOptions_iff.mp hr
    obtain ⟨hchoice, hc⟩ := then_ok_iff.mp hchecks
    exact ⟨path, items, rest, take_iff.mp htake, hspelled, requireChoice_iff.mp hchoice,
      return_iff.mp hc⟩
  · intro ⟨path, items, rest, ha, hspelled, hchoice, hc⟩
    rw [ha]
    refine bind_ok_iff.mpr ⟨(path, rest), rfl, ?_⟩
    refine bind_ok_iff.mpr ⟨_, ingestOptions_iff.mpr ⟨items, hspelled, rfl⟩, ?_⟩
    exact then_ok_iff.mpr ⟨requireChoice_iff.mpr hchoice, return_iff.mpr hc⟩

theorem ingest_iff (args : List Arg) (c : ServiceCall) :
    ingest args = .ok c ↔ ingestForm.Accepts args c := by
  have hword (format : Arg) (rest : List Arg) :
      ingest (format :: rest) = if format ≠ "llvm".toList then
        .error (.usage "ingest requires the llvm subcommand".toList) else ingestLlvm rest := rfl
  rw [ingestForm_accepts]
  cases args with
  | nil => exact ⟨fun h => (by cases h), fun ⟨_, _, _, h, _⟩ => (by cases h)⟩
  | cons format rest =>
    rw [hword]
    by_cases hf : format = "llvm".toList
    · rw [if_neg fun hn => hn hf, ingestLlvm_ok, hf]
      exact exists_congr fun path => exists_congr fun items => exists_congr fun rest' =>
        and_congr_left fun _ => (List.cons_inj_right _).symm
    · rw [if_pos hf]
      exact ⟨fun h => (by cases h), fun ⟨_, _, _, h, _⟩ => absurd (List.cons.inj h).1 hf⟩

/-! ## 4. The dispatch -/

/-- A command and its form. -/
def Command.Has (c : Command) (f : Arg × Form) : Prop :=
  c.name = f.1 ∧ ∀ args call, c.parse args = .ok call ↔ f.2.Accepts args call

theorem commands_forms : List.Forall₂ Command.Has commands forms :=
  .cons ⟨rfl, init_iff⟩ <| .cons ⟨rfl, status_iff⟩ <| .cons ⟨rfl, backup_iff⟩ <|
  .cons ⟨rfl, capabilities_iff⟩ <| .cons ⟨rfl, ingest_iff⟩ <| .cons ⟨rfl, reindex_iff⟩ <|
  .cons ⟨rfl, artifacts_iff⟩ <| .cons ⟨rfl, functions_iff⟩ <| .cons ⟨rfl, materialize_iff⟩ <|
  .cons ⟨rfl, show_iff⟩ <| .cons ⟨rfl, handleAlone_iff .source⟩ <|
  .cons ⟨rfl, handleBudget_iff .uses⟩ <| .cons ⟨rfl, slice_iff⟩ <| .cons ⟨rfl, graph_iff⟩ <|
  .cons ⟨rfl, handleBudget_iff .guards⟩ <| .cons ⟨rfl, handleAlone_iff .expand⟩ <|
  .cons ⟨rfl, handleBudget_iff .context⟩ <| .cons ⟨rfl, traceReturn_iff⟩ <|
  .cons ⟨rfl, traceStores_iff⟩ .nil

/-- A command is found where its form is. -/
theorem find_command {cs : List Command} {fs : List (Arg × Form)}
    (h : List.Forall₂ Command.Has cs fs) (name : Arg) :
    (cs.find? (·.name = name) = none ∧ fs.find? (·.1 = name) = none) ∨
      ∃ c f, cs.find? (·.name = name) = some c ∧ fs.find? (·.1 = name) = some f ∧ c.Has f := by
  induction h with
  | nil => exact .inl ⟨rfl, rfl⟩
  | @cons c f cs fs hcf _ ih =>
    by_cases hname : c.name = name
    · rw [List.find?_cons, List.find?_cons, ← hcf.1, decide_eq_true hname]
      exact .inr ⟨c, f, rfl, rfl, hcf⟩
    · rw [List.find?_cons, List.find?_cons, ← hcf.1, decide_eq_false hname]
      exact ih

/-- **What the dispatch accepts**: a command and what has its form, with lax values. -/
theorem dispatch_iff {name : Arg} {args : List Arg} {c : ServiceCall} :
    dispatch name args = .ok c ↔ ∃ form, findForm name = some form ∧ form.Accepts args c := by
  unfold dispatch findCommand findForm
  rcases find_command commands_forms name with ⟨hc, hf⟩ | ⟨cmd, f, hc, hf, hhas⟩
  · rw [hc, hf]
    exact ⟨fun h => (by cases h), fun ⟨_, h, _⟩ => (by cases h)⟩
  · rw [hc, hf]
    refine (hhas.2 args c).trans ⟨fun h => ⟨f.2, rfl, h⟩, fun ⟨form, hform, h⟩ => ?_⟩
    obtain rfl : f.2 = form := Option.some.inj hform
    exact h

end Irez.Cli
