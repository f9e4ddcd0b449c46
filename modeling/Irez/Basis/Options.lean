/-
  File:      Irez/Basis/Options.lean
  Subject:   Options on a command line, as lists of words.

  An option is written as its name and its value, as two words or as one with an equals sign
  between them, or as a name alone.

  * `Item`, `Spelled` -- options, and the words that spell them;
  * `Spelled.unique` -- words spell one list of options;
  * `last` -- the value of an option that is written more than once.
-/
import Mathlib.Data.List.Basic

namespace Irez.Basis.Options

abbrev Word := List Char

/-- An option that is written; a flag has no value. -/
structure Item where
  name : Word
  value : Option Word
  deriving DecidableEq, Repr

/-- **The words that spell options**: `valued` are the names that take a value, `flag` those that
    take none. -/
inductive Spelled (valued flag : Word → Prop) : List Item → List Word → Prop
  | nil : Spelled valued flag [] []
  | pair {name value : Word} {items : List Item} {words : List Word} (hn : valued name)
      (h : Spelled valued flag items words) :
      Spelled valued flag (⟨name, some value⟩ :: items) (name :: value :: words)
  | equals {name value : Word} {items : List Item} {words : List Word} (hn : valued name)
      (h : Spelled valued flag items words) :
      Spelled valued flag (⟨name, some value⟩ :: items) ((name ++ '=' :: value) :: words)
  | flag {name : Word} {items : List Item} {words : List Word} (hn : flag name)
      (h : Spelled valued flag items words) :
      Spelled valued flag (⟨name, none⟩ :: items) (name :: words)

/-- A word splits at its first equals sign in one way. -/
theorem equals_unique {n m v w : Word} (hn : '=' ∉ n) (hm : '=' ∉ m)
    (h : n ++ '=' :: v = m ++ '=' :: w) : n = m ∧ v = w := by
  induction n generalizing m with
  | nil =>
    cases m with
    | nil => exact ⟨rfl, (List.cons.inj h).2⟩
    | cons c m =>
      obtain ⟨rfl, _⟩ := List.cons.inj h
      exact absurd List.mem_cons_self hm
  | cons c n ih =>
    cases m with
    | nil =>
      obtain ⟨rfl, _⟩ := List.cons.inj h
      exact absurd List.mem_cons_self hn
    | cons d m =>
      obtain ⟨rfl, htail⟩ := List.cons.inj h
      obtain ⟨rfl, hv⟩ := ih (fun hc => hn (List.mem_cons_of_mem _ hc))
        (fun hc => hm (List.mem_cons_of_mem _ hc)) htail
      exact ⟨rfl, hv⟩

theorem not_equals {n m v : Word} (hn : '=' ∉ n) : n ≠ m ++ '=' :: v := by
  intro h
  rw [h] at hn
  simp at hn

section Reading

variable {valued flag : Word → Prop}

/-- **Words spell one list of options**, if no name has an equals sign and none is both. -/
theorem Spelled.unique (hv : ∀ n, valued n → '=' ∉ n) (hf : ∀ n, flag n → '=' ∉ n)
    (hvf : ∀ n, valued n → ¬ flag n) {items items' : List Item} {words : List Word}
    (h : Spelled valued flag items words) (h' : Spelled valued flag items' words) :
    items = items' := by
  induction h generalizing items' with
  | nil =>
    cases h'
    rfl
  | pair hn _ ih =>
    cases h' with
    | pair _ h' => rw [ih h']
    | equals _ _ => exact absurd rfl (not_equals (hv _ hn))
    | flag hn' _ => exact absurd hn' (hvf _ hn)
  | @equals name value items words hn _ ih =>
    generalize hw : (name ++ '=' :: value) :: words = all at h'
    cases h' with
    | nil => cases hw
    | pair hn' _ => exact absurd (List.cons.inj hw).1.symm (not_equals (hv _ hn'))
    | equals hn' h' =>
      obtain ⟨hword, rfl⟩ := List.cons.inj hw
      obtain ⟨rfl, rfl⟩ := equals_unique (hv _ hn) (hv _ hn') hword
      rw [ih h']
    | flag hn' _ => exact absurd (List.cons.inj hw).1.symm (not_equals (hf _ hn'))
  | flag hn _ ih =>
    cases h' with
    | pair hn' _ => exact absurd hn (hvf _ hn')
    | equals _ _ => exact absurd rfl (not_equals (hf _ hn))
    | flag _ h' => rw [ih h']

/-- The options that are written are among the names. -/
theorem Spelled.names {items : List Item} {words : List Word} (h : Spelled valued flag items words) :
    ∀ i ∈ items, (valued i.name ∧ i.value.isSome = true) ∨ (flag i.name ∧ i.value = none) := by
  induction h with
  | nil =>
    intro i hi
    cases hi
  | pair hn _ ih | equals hn _ ih =>
    intro i hi
    rcases List.mem_cons.mp hi with rfl | hi
    · exact .inl ⟨hn, rfl⟩
    · exact ih i hi
  | flag hn _ ih =>
    intro i hi
    rcases List.mem_cons.mp hi with rfl | hi
    · exact .inr ⟨hn, rfl⟩
    · exact ih i hi

end Reading

/-! ## The last occurrence -/

/-- The value of an option: that of its last occurrence. -/
def last : List Item → Word → Option Word
  | [], _ => none
  | i :: items, name => (last items name).or (if i.name = name then i.value else none)

@[simp] theorem last_flag (name name' : Word) (items : List Item) :
    last (⟨name', none⟩ :: items) name = last items name := by
  show (last items name).or (if name' = name then none else none) = _
  rw [ite_self, Option.or_none]

@[simp] theorem last_same (name value : Word) (items : List Item) :
    last (⟨name, some value⟩ :: items) name = (last items name).or (some value) := by
  show (last items name).or (if name = name then some value else none) = _
  rw [if_pos rfl]

theorem exists_of_last {items : List Item} {name value : Word} (h : last items name = some value) :
    ⟨name, some value⟩ ∈ items := by
  induction items with
  | nil => cases h
  | cons i items ih =>
    rw [last, Option.or_eq_some_iff] at h
    rcases h with h | ⟨_, h⟩
    · exact List.mem_cons_of_mem _ (ih h)
    · split at h
      · rename_i hname
        obtain ⟨n, v⟩ := i
        obtain rfl : n = name := hname
        obtain rfl : v = some value := h
        exact List.mem_cons_self
      · cases h

end Irez.Basis.Options
