/-
  File:      Irez/Basis/Utf8.lean
  Subject:   UTF-8: byte strings that encode scalar values, and the repair of those that do not.

  A repair reads a byte string from the front. Where the encoding of a scalar value stands at the
  front this value is kept; where none does one byte is replaced by U+FFFD.

  * `encode`, `WellFormed` -- the encoding, and the byte strings it gives;
  * `encodeChar_append_inj` -- at most one scalar value stands at the front;
  * `Repairs` -- the repair, as a relation;
  * `Repairs.unique`, `Repairs.wellFormed_iff`, `Repairs.replaced_iff` -- there is one repair, it
    changes nothing exactly where nothing is wrong, and U+FFFD tells where something was.
-/
import Mathlib.Data.List.Basic

namespace Irez.Basis.Utf8

/-! ## 1. Encodings -/

abbrev encodeChar : Char → List UInt8 := String.utf8EncodeChar

def encode (text : List Char) : List UInt8 := text.flatMap encodeChar

def WellFormed (bytes : List UInt8) : Prop := ∃ text, encode text = bytes

@[simp] theorem encode_nil : encode [] = [] := rfl

@[simp] theorem encode_cons (c : Char) (text : List Char) :
    encode (c :: text) = encodeChar c ++ encode text := rfl

theorem encodeChar_ne_nil (c : Char) : encodeChar c ≠ [] := by
  intro h
  have hl : (encodeChar c).length = c.utf8Size := String.length_utf8EncodeChar c
  rw [h] at hl
  exact absurd hl.symm (Nat.ne_of_gt c.utf8Size_pos)

/-- **At most one scalar value** stands at the front of a byte string. -/
theorem encodeChar_append_inj {c d : Char} {xs ys : List UInt8}
    (h : encodeChar c ++ xs = encodeChar d ++ ys) : c = d ∧ xs = ys := by
  have hread : ∀ (e : Char) (zs : List UInt8),
      ((encodeChar e ++ zs).toByteArray).utf8DecodeChar? 0 = some e := by
    intro e zs
    rw [List.toByteArray_append]
    exact ByteArray.utf8DecodeChar?_utf8EncodeChar_append
  have hc := hread c xs
  rw [h, hread d ys] at hc
  obtain rfl := Option.some.inj hc
  exact ⟨rfl, List.append_cancel_left h⟩

theorem encode_inj {text text' : List Char} (h : encode text = encode text') : text = text' := by
  induction text generalizing text' with
  | nil =>
    cases text' with
    | nil => rfl
    | cons d text' => exact absurd (List.append_eq_nil_iff.mp h.symm).1 (encodeChar_ne_nil d)
  | cons c text ih =>
    cases text' with
    | nil => exact absurd (List.append_eq_nil_iff.mp h).1 (encodeChar_ne_nil c)
    | cons d text' =>
      obtain ⟨rfl, hrest⟩ := encodeChar_append_inj h
      rw [ih hrest]

/-! ## 2. Repairs -/

/-- `U+FFFD`. -/
def replacement : Char := '\uFFFD'

/-- The repair of a byte string. -/
inductive Repairs : List UInt8 → List Char → Prop where
  | nil : Repairs [] []
  | keep {c : Char} {rest : List UInt8} {text : List Char} (h : Repairs rest text) :
      Repairs (encodeChar c ++ rest) (c :: text)
  | replace {b : UInt8} {rest : List UInt8} {text : List Char}
      (hb : ∀ c, ¬ encodeChar c <+: b :: rest) (h : Repairs rest text) :
      Repairs (b :: rest) (replacement :: text)

theorem Repairs.unique {bytes : List UInt8} {text text' : List Char} (h : Repairs bytes text)
    (h' : Repairs bytes text') : text = text' := by
  induction h generalizing text' with
  | nil =>
    generalize hbytes : ([] : List UInt8) = bytes at h'
    cases h' with
    | nil => rfl
    | @keep c rest _ _ =>
      exact absurd (List.append_eq_nil_iff.mp hbytes.symm).1 (encodeChar_ne_nil c)
    | replace => cases hbytes
  | @keep c rest text _ ih =>
    generalize hbytes : encodeChar c ++ rest = bytes at h'
    cases h' with
    | nil => exact absurd (List.append_eq_nil_iff.mp hbytes).1 (encodeChar_ne_nil c)
    | keep h' =>
      obtain ⟨rfl, rfl⟩ := encodeChar_append_inj hbytes
      rw [ih h']
    | replace hb => exact absurd ⟨rest, hbytes⟩ (hb c)
  | @replace b rest text hb _ ih =>
    generalize hbytes : b :: rest = bytes at h'
    cases h' with
    | nil => cases hbytes
    | @keep c rest' _ _ => exact absurd ⟨rest', hbytes.symm⟩ (hb c)
    | replace _ h' =>
      obtain ⟨rfl, rfl⟩ := List.cons.inj hbytes
      rw [ih h']

theorem Repairs.encode (text : List Char) : Repairs (encode text) text := by
  induction text with
  | nil => exact .nil
  | cons c text ih => exact .keep ih

/-- **What is well formed is left as it is**, and nothing else is. -/
theorem Repairs.wellFormed_iff {bytes : List UInt8} {text : List Char} (h : Repairs bytes text) :
    WellFormed bytes ↔ Utf8.encode text = bytes := by
  constructor
  · intro hw
    obtain ⟨text', rfl⟩ := hw
    rw [h.unique (Repairs.encode text')]
  · intro ht
    exact ⟨text, ht⟩

/-- Where nothing was replaced nothing was wrong. -/
theorem Repairs.kept {bytes : List UInt8} {text : List Char} (h : Repairs bytes text)
    (hr : replacement ∉ text) : Utf8.encode text = bytes := by
  induction h with
  | nil => rfl
  | keep _ ih => rw [encode_cons, ih fun hm => hr (List.mem_cons_of_mem _ hm)]
  | replace => exact absurd List.mem_cons_self hr

/-- **U+FFFD stands in the repair** exactly where something was wrong, or where it stood before. -/
theorem Repairs.replaced_iff {bytes : List UInt8} {text : List Char} (h : Repairs bytes text) :
    replacement ∈ text ↔
      ¬ WellFormed bytes ∨ ∃ text', Utf8.encode text' = bytes ∧ replacement ∈ text' := by
  constructor
  · intro hr
    by_cases hw : WellFormed bytes
    · exact .inr ⟨text, h.wellFormed_iff.mp hw, hr⟩
    · exact .inl hw
  · intro hlossy
    rcases hlossy with hw | ⟨text', rfl, hr⟩
    · by_contra hr
      exact hw ⟨text, h.kept hr⟩
    · rw [h.unique (Repairs.encode text')]
      exact hr

end Irez.Basis.Utf8
