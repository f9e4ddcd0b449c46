/-
  File:      Irez/Basis/Text.lean
  Subject:   Text keys made of fields: a separator that no field contains cuts a
             text in one way only, and decimal numerals are fields.

  * `headField`, `tailFields` -- the text before the first separator and the text
    after it;
  * `field_inj` -- two texts that agree have the same first field and the same rest;
  * `decimal_inj`, `digit_of_mem_decimal` -- a number is determined by its decimal
    numeral, which holds digits only;
  * `padded_append_lt_iff` -- numerals of one width are in the order of their numbers.
-/
import Mathlib.Algebra.Group.Nat.Defs
import Mathlib.Data.List.Basic
import Mathlib.Tactic.Common

namespace Irez.Basis

/-! ## 1. Separators -/

/-- The text before the first `c` (all of it where there is none). -/
def headField (c : Char) (s : String) : String := String.ofList (s.toList.takeWhile (· ≠ c))

/-- The text after the first `c` (empty where there is none). -/
def tailFields (c : Char) (s : String) : String :=
  String.ofList ((s.toList.dropWhile (· ≠ c)).drop 1)

/-- `s.starts_with(p)`. -/
def startsWith (p s : String) : Bool := p.toList.isPrefixOf s.toList

theorem startsWith_iff {p s : String} : startsWith p s = true ↔ ∃ t, s = p ++ t := by
  unfold startsWith
  rw [List.isPrefixOf_iff_prefix]
  constructor
  · rintro ⟨t, ht⟩
    exact ⟨String.ofList t, String.ext (by simp [← ht])⟩
  · rintro ⟨t, rfl⟩
    exact ⟨t.toList, by simp⟩

/-- Lists with a first separator agree before it and after it. -/
theorem append_sep_inj {α : Type} {c : α} {a a' b b' : List α} (ha : c ∉ a) (ha' : c ∉ a')
    (h : a ++ c :: b = a' ++ c :: b') : a = a' ∧ b = b' := by
  induction a generalizing a' with
  | nil =>
    cases a' with
    | nil => exact ⟨rfl, (List.cons.inj h).2⟩
    | cons x a' => exact absurd (List.mem_cons.mpr (Or.inl (List.cons.inj h).1)) ha'
  | cons x a ih =>
    cases a' with
    | nil => exact absurd (List.mem_cons.mpr (Or.inl (List.cons.inj h).1.symm)) ha
    | cons y a' =>
      obtain ⟨rfl, h'⟩ := List.cons.inj h
      obtain ⟨rfl, rfl⟩ := ih (fun m => ha (List.mem_cons_of_mem _ m))
        (fun m => ha' (List.mem_cons_of_mem _ m)) h'
      exact ⟨rfl, rfl⟩

theorem ne_of_not_mem {α : Type} [DecidableEq α] {c : α} {l : List α} (h : c ∉ l) :
    ∀ x ∈ l, decide (x ≠ c) = true := by
  intro x hx
  exact decide_eq_true fun e => h (e ▸ hx)

section Separator

variable {c : Char} {s : String}

/-- **A first field is determined by the text**, and so is what follows it. -/
theorem field_inj (hs : s.toList = [c]) {a a' b b' : String} (ha : c ∉ a.toList)
    (ha' : c ∉ a'.toList) (h : a ++ s ++ b = a' ++ s ++ b') : a = a' ∧ b = b' := by
  have hl : a.toList ++ c :: b.toList = a'.toList ++ c :: b'.toList := by
    simpa [hs] using congrArg String.toList h
  obtain ⟨h1, h2⟩ := append_sep_inj ha ha' hl
  exact ⟨String.ext h1, String.ext h2⟩

theorem headField_append (hs : s.toList = [c]) {a : String} (ha : c ∉ a.toList) (b : String) :
    headField c (a ++ s ++ b) = a := by
  refine String.ext ?_
  simp only [headField, String.toList_ofList, String.toList_append, hs, List.append_assoc,
    List.cons_append, List.nil_append]
  rw [List.takeWhile_append_of_pos (ne_of_not_mem ha), List.takeWhile_cons_of_neg (by simp),
    List.append_nil]

theorem tailFields_append (hs : s.toList = [c]) {a : String} (ha : c ∉ a.toList) (b : String) :
    tailFields c (a ++ s ++ b) = b := by
  refine String.ext ?_
  simp only [tailFields, String.toList_ofList, String.toList_append, hs, List.append_assoc,
    List.cons_append, List.nil_append]
  rw [List.dropWhile_append_of_pos (ne_of_not_mem ha), List.dropWhile_cons_of_neg (by simp)]
  rfl

/-- A text with a separator is its first field, the separator and the rest. -/
theorem headField_tailFields (hs : s.toList = [c]) {t : String} (h : c ∈ t.toList) :
    headField c t ++ s ++ tailFields c t = t := by
  have key : ∀ l : List Char, c ∈ l →
      l.takeWhile (· ≠ c) ++ c :: (l.dropWhile (· ≠ c)).drop 1 = l := by
    intro l hl
    induction l with
    | nil => exact absurd hl List.not_mem_nil
    | cons x l ih =>
      by_cases hx : x = c
      · simp [hx]
      · have hl' : c ∈ l := (List.mem_cons.mp hl).resolve_left fun e => hx e.symm
        simpa [hx] using ih hl'
  refine String.ext ?_
  simpa [headField, tailFields, hs] using key t.toList h

end Separator

/-- Texts that agree and start with parts of one length agree part by part. -/
theorem append_inj_of_length {a a' b b' : String} (hl : a.length = a'.length)
    (h : a ++ b = a' ++ b') : a = a' ∧ b = b' := by
  have hl' : a.toList.length = a'.toList.length := by
    rw [String.length_toList, String.length_toList, hl]
  obtain ⟨h1, h2⟩ := List.append_inj (by simpa using congrArg String.toList h) hl'
  exact ⟨String.ext h1, String.ext h2⟩

/-! ## 2. Decimal numerals -/

theorem decimal_inj {m n : Nat} (h : toString m = toString n) : m = n := by
  have hl : Nat.toDigits 10 m = Nat.toDigits 10 n := by
    simpa [Nat.toString_eq_ofList_toDigits] using congrArg String.toList h
  have hd := congrArg (fun l => Nat.ofDigitChars 10 l 0) hl
  simpa using hd

theorem digit_of_mem_decimal {n : Nat} {x : Char} (h : x ∈ (toString n).toList) :
    x.isDigit = true := by
  rw [Nat.toString_eq_ofList_toDigits, String.toList_ofList] at h
  exact Nat.isDigit_of_mem_toDigits (by decide) (by decide) h

/-- A character that is no digit is in no numeral. -/
theorem not_mem_decimal {c : Char} (hc : c.isDigit = false) (n : Nat) : c ∉ (toString n).toList := by
  intro h
  rw [digit_of_mem_decimal h] at hc
  exact Bool.noConfusion hc

/-! ## 3. Padded numerals -/

/-- A numeral with zeros before it, up to a width. -/
def padded (width n : Nat) : List Char :=
  List.replicate (width - (Nat.toDigits 10 n).length) '0' ++ Nat.toDigits 10 n

theorem isDigit_of_mem_padded {width n : Nat} : ∀ c ∈ padded width n, c.isDigit = true := by
  intro c hc
  rcases List.mem_append.mp hc with hc | hc
  · rw [(List.mem_replicate.mp hc).2]
    decide
  · exact Nat.isDigit_of_mem_toDigits (by decide) (by decide) hc

theorem padded_length {width n : Nat} (hw : 0 < width) (h : n < 10 ^ width) :
    (padded width n).length = width := by
  have hle := (Nat.length_toDigits_le_iff (by decide) hw).mpr h
  unfold padded
  rw [List.length_append, List.length_replicate]
  omega

theorem padded_value (width n : Nat) : Nat.ofDigitChars 10 (padded width n) 0 = n := by
  unfold padded
  rw [Nat.ofDigitChars_append, Nat.ofDigitChars_replicate_zero, Nat.mul_zero,
    Nat.ofDigitChars_ten_toDigits]

theorem padded_inj {width m n : Nat} (h : padded width m = padded width n) : m = n := by
  rw [← padded_value width m, h, padded_value]

/-- Texts whose first parts have one length are compared part by part. -/
theorem append_lt_append_iff {xs ys xs' ys' : List Char} (h : xs.length = ys.length) :
    xs ++ xs' < ys ++ ys' ↔ xs < ys ∨ xs = ys ∧ xs' < ys' := by
  induction xs generalizing ys with
  | nil =>
    obtain rfl := List.length_eq_zero_iff.mp h.symm
    simp
  | cons c xs ih =>
    cases ys with
    | nil => cases h
    | cons d ys =>
      rw [List.cons_append, List.cons_append, List.cons_lt_cons_iff, List.cons_lt_cons_iff,
        ih (Nat.succ.inj h)]
      simp only [List.cons.injEq]
      tauto

/-- Two digits of a mixed numeral: the first one decides, unless it is the same. -/
theorem mul_add_lt_iff {k a b x y : Nat} (hx : x < k) (hy : y < k) :
    k * a + x < k * b + y ↔ a < b ∨ a = b ∧ x < y := by
  rcases Nat.lt_trichotomy a b with h | rfl | h
  · have hle : k * (a + 1) ≤ k * b := Nat.mul_le_mul_left k h
    rw [Nat.mul_add, Nat.mul_one] at hle
    exact ⟨fun _ => .inl h, fun _ => by omega⟩
  · omega
  · have hle : k * (b + 1) ≤ k * a := Nat.mul_le_mul_left k h
    rw [Nat.mul_add, Nat.mul_one] at hle
    exact ⟨fun _ => by omega, fun _ => by omega⟩

/-- The first digit counts for a power of ten. -/
theorem ofDigitChars_cons_zero {c : Char} {l : List Char} : Nat.ofDigitChars 10 (c :: l) 0 =
    10 ^ l.length * (c.toNat - '0'.toNat) + Nat.ofDigitChars 10 l 0 := by
  rw [Nat.ofDigitChars_cons, Nat.ofDigitChars_eq_ofDigitChars_zero, Nat.mul_zero, Nat.zero_add]

theorem ofDigitChars_lt {l : List Char} (h : ∀ c ∈ l, c.isDigit = true) :
    Nat.ofDigitChars 10 l 0 < 10 ^ l.length := by
  induction l with
  | nil => decide
  | cons c l ih =>
    have ih := ih fun x hx => h x (List.mem_cons_of_mem _ hx)
    have hc := Char.isDigit_iff_toNat.mp (h c List.mem_cons_self)
    have hnine : '9'.toNat = '0'.toNat + 9 := rfl
    have hdigit : 10 ^ l.length * (c.toNat - '0'.toNat) ≤ 10 ^ l.length * 9 :=
      Nat.mul_le_mul_left _ (by omega)
    rw [ofDigitChars_cons_zero, List.length_cons, Nat.pow_succ]
    omega

/-- **Numerals of one width are in the order of their values.** -/
theorem digits_lt_iff {xs ys : List Char} (hx : ∀ c ∈ xs, c.isDigit = true)
    (hy : ∀ c ∈ ys, c.isDigit = true) (hl : xs.length = ys.length) :
    xs < ys ↔ Nat.ofDigitChars 10 xs 0 < Nat.ofDigitChars 10 ys 0 := by
  induction xs generalizing ys with
  | nil =>
    cases ys with
    | nil => simp
    | cons d ys => cases hl
  | cons c xs ih =>
    cases ys with
    | nil => cases hl
    | cons d ys =>
      have hxs : ∀ e ∈ xs, e.isDigit = true := fun e he => hx e (List.mem_cons_of_mem _ he)
      have hys : ∀ e ∈ ys, e.isDigit = true := fun e he => hy e (List.mem_cons_of_mem _ he)
      have hl' : xs.length = ys.length := Nat.succ.inj hl
      have hc := Char.isDigit_iff_toNat.mp (hx c List.mem_cons_self)
      have hd := Char.isDigit_iff_toNat.mp (hy d List.mem_cons_self)
      have hxlt := ofDigitChars_lt hxs
      have hylt := ofDigitChars_lt hys
      have hzero : '9'.toNat = '0'.toNat + 9 := rfl
      have hlt : c < d ↔ c.toNat - '0'.toNat < d.toNat - '0'.toNat := by
        rw [Char.lt_def, UInt32.lt_iff_toNat_lt]
        show c.toNat < d.toNat ↔ _
        omega
      have heq : c = d ↔ c.toNat - '0'.toNat = d.toNat - '0'.toNat := by
        rw [← Char.toNat_inj]
        omega
      rw [← hl'] at hylt
      rw [List.cons_lt_cons_iff, ih hxs hys hl', ofDigitChars_cons_zero, ofDigitChars_cons_zero, ← hl',
        mul_add_lt_iff hxlt hylt, hlt, heq]

/-- **Padded numerals are in the order of their numbers**, whatever follows them. -/
theorem padded_append_lt_iff {width m n : Nat} (hw : 0 < width) (hm : m < 10 ^ width)
    (hn : n < 10 ^ width) {xs ys : List Char} :
    padded width m ++ xs < padded width n ++ ys ↔ m < n ∨ m = n ∧ xs < ys := by
  have hl : (padded width m).length = (padded width n).length := by
    rw [padded_length hw hm, padded_length hw hn]
  have hcmp : padded width m < padded width n ↔ m < n := by
    rw [digits_lt_iff isDigit_of_mem_padded isDigit_of_mem_padded hl, padded_value, padded_value]
  rw [append_lt_append_iff hl, hcmp]
  constructor
  · intro h
    rcases h with h | ⟨h, hlt⟩
    · exact .inl h
    · exact .inr ⟨padded_inj h, hlt⟩
  · intro h
    rcases h with h | ⟨rfl, hlt⟩
    · exact .inl h
    · exact .inr ⟨rfl, hlt⟩

theorem padded_lt_iff {width m n : Nat} (hw : 0 < width) (hm : m < 10 ^ width)
    (hn : n < 10 ^ width) : padded width m < padded width n ↔ m < n := by
  have h : padded width m ++ [] < padded width n ++ [] ↔ _ := padded_append_lt_iff hw hm hn
  simpa using h

end Irez.Basis
