/-
  File:      Irez/Dump.lean
  Subject:   `dump_json` (src/envelope.cpp 66-157).

  What goes to the outside is JSON in UTF-8, whatever bytes the strings hold: a byte that belongs to
  no encoded scalar value becomes U+FFFD, and an object in which that happened says so.

  * `sanitizeText` -- the text sanitizer, with its flag;
  * `scalarAt_encodeChar`, `encodeChar_of_scalarAt` -- it takes a scalar value where one is encoded,
    and nowhere else;
  * `sanitizeText_repairs` -- it is the repair of the byte string;
  * `sanitize`, `dumpJson` -- the values;
  * `safe_sound` -- what is printed is well formed at every depth;
  * `Denotes` -- the JSON value that a value stands for;
  * `dump_json_sanitizes` -- what goes to the outside.
-/
import Irez.Basis.Utf8
import Irez.Printer
import Mathlib.Data.List.Nodup

open Irez.Basis Irez.Basis.Json Irez.Basis.Utf8

namespace Irez.Dump

/-! ## 1. The text sanitizer -/

/-- `width` and the bits of `codepoint` that the lead byte holds; no width where it is no lead. -/
def leadOf (lead : Nat) : Nat × Nat :=
  if lead ≤ 0x7f then (1, lead)
  else if 0xc2 ≤ lead ∧ lead ≤ 0xdf then (2, lead &&& 0x1f)
  else if 0xe0 ≤ lead ∧ lead ≤ 0xef then (3, lead &&& 0x0f)
  else if 0xf0 ≤ lead ∧ lead ≤ 0xf4 then (4, lead &&& 0x07)
  else (0, 0)

/-- The loop over the continuation bytes. -/
def continuation : Nat → Nat → List UInt8 → Option Nat
  | 0, codepoint, _ => some codepoint
  | _ + 1, _, [] => none
  | n + 1, codepoint, b :: rest =>
    if b.toNat &&& 0xc0 ≠ 0x80 then none
    else continuation n ((codepoint <<< 6) ||| (b.toNat &&& 0x3f)) rest

def overlong (width codepoint : Nat) : Bool :=
  (width = 2 && codepoint < 0x80) || (width = 3 && codepoint < 0x800) ||
    (width = 4 && codepoint < 0x10000)

/-- The valid sequence at the front: its width and its code point. -/
def scalarAt : List UInt8 → Option (Nat × Nat)
  | [] => none
  | b :: rest =>
    let (width, bits) := leadOf b.toNat
    if width = 0 ∨ rest.length + 1 < width then none
    else
      match continuation (width - 1) bits rest with
      | none => none
      | some codepoint =>
        if overlong width codepoint ∨ codepoint > 0x10ffff ∨
            (0xd800 ≤ codepoint ∧ codepoint ≤ 0xdfff) then none
        else some (width, codepoint)

/-- `"\xef\xbf\xbd"`. -/
def replacementBytes : List UInt8 := [0xef, 0xbf, 0xbd]

/-- `sanitize_text`: the output, and whether `lossy` was set. -/
def sanitizeText : List UInt8 → List UInt8 × Bool
  | [] => ([], false)
  | b :: rest =>
    match scalarAt (b :: rest) with
    | some (width, codepoint) =>
      -- a valid sequence has its lead byte
      let (output, lossy) := sanitizeText (rest.drop (width - 1))
      (b :: rest.take (width - 1) ++ output, codepoint = 0xfffd || lossy)
    | none =>
      let (output, _) := sanitizeText rest
      (replacementBytes ++ output, true)
  termination_by input => input.length
  decreasing_by
    all_goals simp only [List.length_cons, List.length_drop]
    all_goals omega

/-! ## 2. Scalar values -/

section Bits

theorem and_1f (n : Nat) : n &&& 0x1f = n % 32 := Nat.and_two_pow_sub_one_eq_mod n 5

theorem and_0f (n : Nat) : n &&& 0x0f = n % 16 := Nat.and_two_pow_sub_one_eq_mod n 4

theorem and_07 (n : Nat) : n &&& 0x07 = n % 8 := Nat.and_two_pow_sub_one_eq_mod n 3

theorem and_3f (n : Nat) : n &&& 0x3f = n % 64 := Nat.and_two_pow_sub_one_eq_mod n 6

/-- Six more bits. -/
theorem shift_or (n m : Nat) : (n <<< 6) ||| (m &&& 0x3f) = 64 * n + m % 64 := by
  rw [and_3f, ← Nat.shiftLeft_add_eq_or_of_lt (Nat.mod_lt m (by decide)), Nat.shiftLeft_eq,
    Nat.mul_comm]

/-- A continuation byte. -/
theorem and_c0 {n : Nat} (h : n < 256) : n &&& 0xc0 = 0x80 ↔ 128 ≤ n ∧ n < 192 := by
  have hall : ∀ k : Fin 256, k.val &&& 0xc0 = 0x80 ↔ 128 ≤ k.val ∧ k.val < 192 := by decide +kernel
  exact hall ⟨n, h⟩

end Bits

section Lead

variable {n : Nat}

theorem leadOf_one (h : n ≤ 0x7f) : leadOf n = (1, n) := if_pos h

theorem leadOf_two (h : 0xc2 ≤ n ∧ n ≤ 0xdf) : leadOf n = (2, n % 32) := by
  unfold leadOf
  rw [if_neg (by omega), if_pos h, and_1f]

theorem leadOf_three (h : 0xe0 ≤ n ∧ n ≤ 0xef) : leadOf n = (3, n % 16) := by
  unfold leadOf
  rw [if_neg (by omega), if_neg (by omega), if_pos h, and_0f]

theorem leadOf_four (h : 0xf0 ≤ n ∧ n ≤ 0xf4) : leadOf n = (4, n % 8) := by
  unfold leadOf
  rw [if_neg (by omega), if_neg (by omega), if_neg (by omega), if_pos h, and_07]

theorem leadOf_none (h : (0x7f < n ∧ n < 0xc2) ∨ 0xf4 < n) : leadOf n = (0, 0) := by
  unfold leadOf
  rw [if_neg (by omega), if_neg (by omega), if_neg (by omega), if_neg (by omega)]

end Lead

/-! ### Sequences -/

/-- The byte with a number below 256. -/
theorem toNat_byte {n : Nat} (h : n < 256) : (UInt8.ofNat n).toNat = n :=
  UInt8.toNat_ofNat_of_lt h

theorem byte_toNat (b : UInt8) : UInt8.ofNat b.toNat = b := UInt8.ofNat_toNat

theorem continuation_cons {k codepoint : Nat} {b : UInt8} {rest : List UInt8}
    (h : 128 ≤ b.toNat ∧ b.toNat < 192) : continuation (k + 1) codepoint (b :: rest) =
      continuation k (64 * codepoint + b.toNat % 64) rest := by
  have hc0 := (and_c0 b.toNat_lt).mpr h
  rw [continuation, if_neg (by omega), shift_or]

theorem continuation_some {k codepoint v : Nat} {bytes : List UInt8}
    (h : continuation (k + 1) codepoint bytes = some v) : ∃ b rest, bytes = b :: rest ∧
      (128 ≤ b.toNat ∧ b.toNat < 192) ∧
      continuation k (64 * codepoint + b.toNat % 64) rest = some v := by
  cases bytes with
  | nil => cases h
  | cons b rest =>
    by_cases hb : b.toNat &&& 0xc0 = 0x80
    · have hrange := (and_c0 b.toNat_lt).mp hb
      rw [continuation_cons hrange] at h
      exact ⟨b, rest, rfl, hrange, h⟩
    · rw [continuation, if_pos hb] at h
      cases h

/-- The number of a scalar value. -/
def IsScalar (v : Nat) : Prop := v < 0xd800 ∨ (0xdfff < v ∧ v < 0x110000)

theorem isScalar_toNat (c : Char) : IsScalar c.toNat := c.valid

section Sequence

variable {b : UInt8} {rest : List UInt8} {width codepoint : Nat}

theorem scalarAt_eq {bits : Nat} (hlead : leadOf b.toNat = (width, bits)) (hw : width ≠ 0)
    (hl : width ≤ rest.length + 1) (hc : continuation (width - 1) bits rest = some codepoint)
    (ho : overlong width codepoint = false) (hs : IsScalar codepoint) :
    scalarAt (b :: rest) = some (width, codepoint) := by
  unfold IsScalar at hs
  rw [scalarAt, hlead]
  dsimp only
  rw [if_neg (by omega), hc]
  dsimp only
  rw [if_neg]
  intro h
  rcases h with h | h | h
  · rw [ho] at h
    cases h
  · omega
  · omega

theorem scalarAt_some (h : scalarAt (b :: rest) = some (width, codepoint)) :
    ∃ bits, leadOf b.toNat = (width, bits) ∧ width ≠ 0 ∧
      continuation (width - 1) bits rest = some codepoint ∧ overlong width codepoint = false ∧
      IsScalar codepoint := by
  rw [scalarAt] at h
  cases hlead : leadOf b.toNat with
  | mk w bits =>
    rw [hlead] at h
    dsimp only at h
    by_cases hw : w = 0 ∨ rest.length + 1 < w
    · rw [if_pos hw] at h
      cases h
    · rw [if_neg hw] at h
      cases hc : continuation (w - 1) bits rest with
      | none =>
        rw [hc] at h
        cases h
      | some v =>
        rw [hc] at h
        dsimp only at h
        by_cases hv : overlong w v = true ∨ v > 0x10ffff ∨ (0xd800 ≤ v ∧ v ≤ 0xdfff)
        · rw [if_pos hv] at h
          cases h
        · rw [if_neg hv] at h
          obtain ⟨rfl, rfl⟩ := Prod.mk.inj (Option.some.inj h)
          refine ⟨bits, rfl, fun hz => hw (.inl hz), hc, ?_, ?_⟩
          · exact Bool.eq_false_iff.mpr fun ho => hv (.inl ho)
          · unfold IsScalar
            omega

end Sequence

theorem encodeChar_one {c : Char} (h : c.toNat ≤ 0x7f) : encodeChar c = [UInt8.ofNat c.toNat] :=
  if_pos h

theorem encodeChar_two {c : Char} (h : 0x7f < c.toNat) (h' : c.toNat ≤ 0x7ff) : encodeChar c =
    [UInt8.ofNat (c.toNat / 64 % 32 + 192), UInt8.ofNat (c.toNat % 64 + 128)] := by
  show ite (c.toNat ≤ 0x7f) _ (ite (c.toNat ≤ 0x7ff) _ _) = _
  rw [if_neg (by omega), if_pos h']
  rfl

theorem encodeChar_three {c : Char} (h : 0x7ff < c.toNat) (h' : c.toNat ≤ 0xffff) : encodeChar c =
    [UInt8.ofNat (c.toNat / 4096 % 16 + 224), UInt8.ofNat (c.toNat / 64 % 64 + 128),
      UInt8.ofNat (c.toNat % 64 + 128)] := by
  show ite (c.toNat ≤ 0x7f) _ (ite (c.toNat ≤ 0x7ff) _ (ite (c.toNat ≤ 0xffff) _ _)) = _
  rw [if_neg (by omega), if_neg (by omega), if_pos h']
  rfl

theorem encodeChar_four {c : Char} (h : 0xffff < c.toNat) : encodeChar c =
    [UInt8.ofNat (c.toNat / 262144 % 8 + 240), UInt8.ofNat (c.toNat / 4096 % 64 + 128),
      UInt8.ofNat (c.toNat / 64 % 64 + 128), UInt8.ofNat (c.toNat % 64 + 128)] := by
  show ite (c.toNat ≤ 0x7f) _ (ite (c.toNat ≤ 0x7ff) _ (ite (c.toNat ≤ 0xffff) _ _)) = _
  rw [if_neg (by omega), if_neg (by omega), if_neg (by omega)]
  rfl

/-- **Where a scalar value is encoded it is found.** -/
theorem scalarAt_encodeChar (c : Char) (rest : List UInt8) :
    scalarAt (encodeChar c ++ rest) = some ((encodeChar c).length, c.toNat) := by
  have hs := isScalar_toNat c
  have hlast := toNat_byte (n := c.toNat % 64 + 128) (by omega)
  have hthird := toNat_byte (n := c.toNat / 64 % 64 + 128) (by omega)
  have hsecond := toNat_byte (n := c.toNat / 4096 % 64 + 128) (by omega)
  obtain h1 | ⟨h1, h2⟩ | ⟨h2, h3⟩ | h3 : c.toNat ≤ 0x7f ∨ (0x7f < c.toNat ∧ c.toNat ≤ 0x7ff) ∨
      (0x7ff < c.toNat ∧ c.toNat ≤ 0xffff) ∨ 0xffff < c.toNat := by omega
  · rw [encodeChar_one h1]
    have hb := toNat_byte (n := c.toNat) (by omega)
    exact scalarAt_eq ((congrArg leadOf hb).trans (leadOf_one h1)) (Nat.succ_ne_zero _) (by simp) rfl rfl hs
  · rw [encodeChar_two h1 h2]
    have hb := toNat_byte (n := c.toNat / 64 % 32 + 192) (by omega)
    refine scalarAt_eq ((congrArg leadOf hb).trans (leadOf_two (by omega))) (Nat.succ_ne_zero _) (by simp)
      ?_ ?_ hs
    · show continuation 1 _ (UInt8.ofNat (c.toNat % 64 + 128) :: rest) = _
      rw [continuation_cons (by omega), hlast]
      exact congrArg some (by omega)
    · have hbig : ¬ c.toNat < 0x80 := by omega
      simp [overlong, hbig]
  · rw [encodeChar_three h2 h3]
    have hb := toNat_byte (n := c.toNat / 4096 % 16 + 224) (by omega)
    refine scalarAt_eq ((congrArg leadOf hb).trans (leadOf_three (by omega))) (Nat.succ_ne_zero _) (by simp)
      ?_ ?_ hs
    · show continuation 2 _ (UInt8.ofNat (c.toNat / 64 % 64 + 128) ::
        UInt8.ofNat (c.toNat % 64 + 128) :: rest) = _
      rw [continuation_cons (by omega), continuation_cons (by omega), hlast, hthird]
      exact congrArg some (by omega)
    · have hbig : ¬ c.toNat < 0x800 := by omega
      simp [overlong, hbig]
  · rw [encodeChar_four h3]
    have hb := toNat_byte (n := c.toNat / 262144 % 8 + 240) (by omega)
    unfold IsScalar at hs
    refine scalarAt_eq ((congrArg leadOf hb).trans (leadOf_four (by omega))) (Nat.succ_ne_zero _) (by simp)
      ?_ ?_ hs
    · show continuation 3 _ (UInt8.ofNat (c.toNat / 4096 % 64 + 128) ::
        UInt8.ofNat (c.toNat / 64 % 64 + 128) :: UInt8.ofNat (c.toNat % 64 + 128) :: rest) = _
      rw [continuation_cons (by omega), continuation_cons (by omega), continuation_cons (by omega),
        hlast, hthird, hsecond]
      exact congrArg some (by omega)
    · have hbig : ¬ c.toNat < 0x10000 := by omega
      simp [overlong, hbig]

/-- The scalar value with a number. -/
theorem exists_char {v : Nat} (h : IsScalar v) : ∃ c : Char, c.toNat = v := by
  have hvalid : v.isValidChar := h
  exact ⟨Char.ofNatAux v hvalid, rfl⟩

/-- **What is found is the encoding of a scalar value.** -/
theorem encodeChar_of_scalarAt {b : UInt8} {rest : List UInt8} {width codepoint : Nat}
    (h : scalarAt (b :: rest) = some (width, codepoint)) : ∃ c : Char, c.toNat = codepoint ∧
      encodeChar c = b :: rest.take (width - 1) ∧ rest.take (width - 1) ++ rest.drop (width - 1) = rest := by
  obtain ⟨bits, hlead, hw, hc, ho, hs⟩ := scalarAt_some h
  obtain ⟨c, hv⟩ := exists_char hs
  refine ⟨c, hv, ?_, List.take_append_drop _ _⟩
  have hb := b.toNat_lt
  obtain h1 | h2 | h3 | h4 | h0 : b.toNat ≤ 0x7f ∨ (0xc2 ≤ b.toNat ∧ b.toNat ≤ 0xdf) ∨
      (0xe0 ≤ b.toNat ∧ b.toNat ≤ 0xef) ∨ (0xf0 ≤ b.toNat ∧ b.toNat ≤ 0xf4) ∨
      ((0x7f < b.toNat ∧ b.toNat < 0xc2) ∨ 0xf4 < b.toNat) := by omega
  · rw [leadOf_one h1] at hlead
    obtain ⟨rfl, rfl⟩ := Prod.mk.inj hlead
    have hcode : b.toNat = c.toNat := (Option.some.inj hc).trans hv.symm
    rw [encodeChar_one (by omega), ← hcode, byte_toNat]
    rfl
  · rw [leadOf_two h2] at hlead
    obtain ⟨rfl, rfl⟩ := Prod.mk.inj hlead
    obtain ⟨b₁, rest₁, rfl, hb₁, hc⟩ := continuation_some hc
    have hcode : 64 * (b.toNat % 32) + b₁.toNat % 64 = c.toNat := (Option.some.inj hc).trans hv.symm
    rw [encodeChar_two (by omega) (by omega)]
    have hfirst : c.toNat / 64 % 32 + 192 = b.toNat := by omega
    have hsecond : c.toNat % 64 + 128 = b₁.toNat := by omega
    rw [hfirst, hsecond, byte_toNat, byte_toNat]
    rfl
  · rw [leadOf_three h3] at hlead
    obtain ⟨rfl, rfl⟩ := Prod.mk.inj hlead
    obtain ⟨b₁, rest₁, rfl, hb₁, hc⟩ := continuation_some hc
    obtain ⟨b₂, rest₂, rfl, hb₂, hc⟩ := continuation_some hc
    have hcode : 64 * (64 * (b.toNat % 16) + b₁.toNat % 64) + b₂.toNat % 64 = c.toNat :=
      (Option.some.inj hc).trans hv.symm
    have hbig : 0x7ff < c.toNat := by
      rw [hv]
      by_contra hsmall
      have hlow : codepoint < 0x800 := by omega
      simp [overlong, hlow] at ho
    rw [encodeChar_three hbig (by omega)]
    have hfirst : c.toNat / 4096 % 16 + 224 = b.toNat := by omega
    have hsecond : c.toNat / 64 % 64 + 128 = b₁.toNat := by omega
    have hthird : c.toNat % 64 + 128 = b₂.toNat := by omega
    rw [hfirst, hsecond, hthird, byte_toNat, byte_toNat, byte_toNat]
    rfl
  · rw [leadOf_four h4] at hlead
    obtain ⟨rfl, rfl⟩ := Prod.mk.inj hlead
    obtain ⟨b₁, rest₁, rfl, hb₁, hc⟩ := continuation_some hc
    obtain ⟨b₂, rest₂, rfl, hb₂, hc⟩ := continuation_some hc
    obtain ⟨b₃, rest₃, rfl, hb₃, hc⟩ := continuation_some hc
    have hcode : 64 * (64 * (64 * (b.toNat % 8) + b₁.toNat % 64) + b₂.toNat % 64) + b₃.toNat % 64 =
      c.toNat := (Option.some.inj hc).trans hv.symm
    have hbig : 0xffff < c.toNat := by
      rw [hv]
      by_contra hsmall
      have hlow : codepoint < 0x10000 := by omega
      simp [overlong, hlow] at ho
    rw [encodeChar_four hbig]
    have hfirst : c.toNat / 262144 % 8 + 240 = b.toNat := by omega
    have hsecond : c.toNat / 4096 % 64 + 128 = b₁.toNat := by omega
    have hthird : c.toNat / 64 % 64 + 128 = b₂.toNat := by omega
    have hfourth : c.toNat % 64 + 128 = b₃.toNat := by omega
    rw [hfirst, hsecond, hthird, hfourth, byte_toNat, byte_toNat, byte_toNat, byte_toNat]
    rfl
  · rw [leadOf_none h0] at hlead
    exact absurd (Prod.mk.inj hlead).1.symm hw

/-- Where nothing is found no scalar value is encoded. -/
theorem not_prefix_of_scalarAt {bytes : List UInt8} (h : scalarAt bytes = none) (c : Char) :
    ¬ encodeChar c <+: bytes := by
  intro hprefix
  obtain ⟨rest, rfl⟩ := hprefix
  rw [scalarAt_encodeChar] at h
  cases h

/-! ## 3. The repair -/

theorem replacementBytes_eq : replacementBytes = encodeChar replacement := by decide

/-- **The sanitizer repairs the byte string**, and says whether U+FFFD stands in what it gives. -/
theorem sanitizeText_repairs (input : List UInt8) : ∃ text, Repairs input text ∧
    sanitizeText input = (encode text, decide (replacement ∈ text)) := by
  fun_induction sanitizeText input with
  | case1 => exact ⟨[], .nil, by simp⟩
  | case2 b rest width codepoint hscalar output lossy heq ih =>
    obtain ⟨text, hrepairs, hrest⟩ := ih
    obtain ⟨c, hc, hencode, hsplit⟩ := encodeChar_of_scalarAt hscalar
    obtain ⟨rfl, rfl⟩ := Prod.mk.inj (heq.symm.trans hrest)
    refine ⟨c :: text, ?_, ?_⟩
    · have hkeep := Repairs.keep (c := c) hrepairs
      rw [hencode, List.cons_append, hsplit] at hkeep
      exact hkeep
    · have hmark : codepoint = 0xfffd ↔ replacement = c := by
        rw [← hc]
        exact ⟨fun h => (Char.toNat_inj.mp h).symm, fun h => by rw [← h]; rfl⟩
      rw [encode_cons, hencode]
      simp [hmark]
  | case3 b rest hscalar output lossy heq ih =>
    obtain ⟨text, hrepairs, hrest⟩ := ih
    obtain ⟨rfl, rfl⟩ := Prod.mk.inj (heq.symm.trans hrest)
    refine ⟨replacement :: text, .replace (not_prefix_of_scalarAt hscalar) hrepairs, ?_⟩
    rw [encode_cons, replacementBytes_eq]
    simp

/-! ## 4. Values -/

/-- The text of a number. -/
abbrev NumberText := { text : List Char // isNumber text = true }

/-- A JSON value whose strings are byte strings, as `llvm::json` holds it. The members of an object
    stand in the order in which a loop meets them. -/
inductive RawJson where
  | null
  | bool (b : Bool)
  | number (text : NumberText)
  | string (bytes : List UInt8)
  | array (items : List RawJson)
  | object (members : List (List UInt8 × RawJson))

abbrev RawMembers := List (List UInt8 × RawJson)

namespace RawMembers

def get : RawMembers → List UInt8 → Option RawJson
  | [], _ => none
  | (k, v) :: rest, key => if k = key then some v else get rest key

/-- `object[key] = value`. -/
def assign : RawMembers → List UInt8 → RawJson → RawMembers
  | [], key, value => [(key, value)]
  | (k, v) :: rest, key, value =>
    if k = key then (key, value) :: rest else (k, v) :: assign rest key value

end RawMembers

/-- A key or a text of the source. -/
def bytesOf (s : String) : List UInt8 := encode s.toList

mutual

/-- `sanitize`, with what it adds to `lossy`. -/
def sanitize : RawJson → RawJson × Bool
  | .object members =>
    let (clean, lossy) := sanitizeMembers [] members
    (.object clean, lossy)
  | .array items =>
    let (clean, lossy) := sanitizeItems items
    (.array clean, lossy)
  | .string bytes =>
    let (text, lossy) := sanitizeText bytes
    (.string text, lossy)
  | item => (item, false)

def sanitizeItems : List RawJson → List RawJson × Bool
  | [] => ([], false)
  | entry :: items =>
    let (item, lossy) := sanitize entry
    let (clean, lossy') := sanitizeItems items
    (item :: clean, lossy || lossy')

def sanitizeMembers (clean : RawMembers) : List (List UInt8 × RawJson) → RawMembers × Bool
  | [] => (clean, false)
  | (key, value) :: members =>
    let (key, lossy) := sanitizeText key
    let (value, lossy') := sanitize value
    let (clean, lossy'') := sanitizeMembers (RawMembers.assign clean key value) members
    (clean, lossy || lossy' || lossy'')

end

/-- The entry of `diagnostics`. -/
def lossyDiagnostic : RawJson :=
  .object [(bytesOf "kind", .string (bytesOf "text_encoding")),
    (bytesOf "status", .string (bytesOf "lossy")), (bytesOf "replacement", .string (bytesOf "U+FFFD"))]

/-- What is added to an object in which something was lost. -/
def markLossy : RawJson → RawJson
  | .object members =>
    let members := RawMembers.assign members (bytesOf "encoding_lossy") (.bool true)
    let diagnostics :=
      match RawMembers.get members (bytesOf "diagnostics") with
      | some (.array items) => items
      | _ => []
    .object (RawMembers.assign members (bytesOf "diagnostics") (.array (diagnostics ++ [lossyDiagnostic])))
  | value => value

/-- The value that is printed. -/
def safe (value : RawJson) : RawJson :=
  let (safe, lossy) := sanitize value
  if lossy then markLossy safe else safe

/-- `dump_json`; `formatv` prints a value with an indent of 2. -/
def dumpJson (formatv : RawJson → List UInt8) (value : RawJson) : List UInt8 := formatv (safe value)

/-! ### What was lost -/

/-- The text was ill-formed, or has U+FFFD in it. -/
def LossyText (bytes : List UInt8) : Prop :=
  ¬ WellFormed bytes ∨ ∃ text, encode text = bytes ∧ replacement ∈ text

mutual

/-- The keys and the strings of a value, at every depth. -/
def texts : RawJson → List (List UInt8)
  | .object members => memberTexts members
  | .array items => itemTexts items
  | .string bytes => [bytes]
  | _ => []

def itemTexts : List RawJson → List (List UInt8)
  | [] => []
  | item :: items => texts item ++ itemTexts items

def memberTexts : List (List UInt8 × RawJson) → List (List UInt8)
  | [] => []
  | (key, value) :: members => key :: texts value ++ memberTexts members

end

def Lossy (value : RawJson) : Prop := ∃ bytes ∈ texts value, LossyText bytes

theorem sanitizeText_lossy {bytes : List UInt8} : (sanitizeText bytes).2 = true ↔ LossyText bytes := by
  obtain ⟨text, hrepairs, heq⟩ := sanitizeText_repairs bytes
  rw [heq, decide_eq_true_eq]
  exact hrepairs.replaced_iff

/-- **What is not lossy is left as it is.** -/
theorem sanitizeText_kept {bytes : List UInt8} (h : ¬ LossyText bytes) :
    sanitizeText bytes = (bytes, false) := by
  obtain ⟨text, hrepairs, heq⟩ := sanitizeText_repairs bytes
  have hr : replacement ∉ text := fun hr => h (hrepairs.replaced_iff.mp hr)
  rw [heq, hrepairs.kept hr, decide_eq_false hr]

mutual

theorem sanitize_lossy (value : RawJson) : (sanitize value).2 = true ↔ Lossy value := by
  cases value with
  | string bytes => simpa [sanitize, Lossy, texts] using sanitizeText_lossy
  | array items => simpa [sanitize, Lossy, texts] using sanitizeItems_lossy items
  | object members => simpa [sanitize, Lossy, texts] using sanitizeMembers_lossy [] members
  | null => simp [sanitize, Lossy, texts]
  | bool b => simp [sanitize, Lossy, texts]
  | number text => simp [sanitize, Lossy, texts]

theorem sanitizeItems_lossy (items : List RawJson) :
    (sanitizeItems items).2 = true ↔ ∃ bytes ∈ itemTexts items, LossyText bytes := by
  match items with
  | [] => simp [sanitizeItems, itemTexts]
  | item :: items =>
    have hitem := sanitize_lossy item
    have hitems := sanitizeItems_lossy items
    unfold Lossy at hitem
    simp only [sanitizeItems, itemTexts, Bool.or_eq_true, List.mem_append, hitem, hitems, or_and_right,
      exists_or]

theorem sanitizeMembers_lossy (clean : RawMembers) (members : List (List UInt8 × RawJson)) :
    (sanitizeMembers clean members).2 = true ↔ ∃ bytes ∈ memberTexts members, LossyText bytes := by
  match members with
  | [] => simp [sanitizeMembers, memberTexts]
  | (key, value) :: members =>
    have hkey : (sanitizeText key).2 = true ↔ LossyText key := sanitizeText_lossy
    have hvalue := sanitize_lossy value
    have hmembers := sanitizeMembers_lossy
      (RawMembers.assign clean (sanitizeText key).1 (sanitize value).1) members
    unfold Lossy at hvalue
    simp only [sanitizeMembers, memberTexts, Bool.or_eq_true, List.mem_cons, List.mem_append, hkey,
      hvalue, hmembers, or_and_right, exists_or, exists_eq_left, List.cons_append, or_assoc]

end

/-! ### What was kept -/

namespace RawMembers

def keys (ms : RawMembers) : List (List UInt8) := ms.map Prod.fst

theorem assign_of_not_mem {ms : RawMembers} {key : List UInt8} {value : RawJson}
    (h : key ∉ ms.keys) : ms.assign key value = ms ++ [(key, value)] := by
  induction ms with
  | nil => rfl
  | cons m ms ih =>
    obtain ⟨k, v⟩ := m
    have hk : k ≠ key := fun he => h (by rw [← he]; exact List.mem_cons_self)
    rw [assign, if_neg hk, ih fun hm => h (List.mem_cons_of_mem _ hm)]
    rfl

theorem get_assign (ms : RawMembers) (key : List UInt8) (value : RawJson) (k : List UInt8) :
    (ms.assign key value).get k = if key = k then some value else ms.get k := by
  induction ms with
  | nil => rfl
  | cons m ms ih =>
    obtain ⟨l, v⟩ := m
    by_cases hl : l = key
    · rw [assign, if_pos hl, get, get, hl]
      split
      · rfl
      · rfl
    · rw [assign, if_neg hl, get, get, ih]
      by_cases hk : key = k
      · rw [if_neg (fun he => hl (he.trans hk.symm)), if_pos hk]
        rw [if_pos hk]
      · rw [if_neg hk, if_neg hk]

theorem keys_assign_of_mem {ms : RawMembers} {key : List UInt8} {value : RawJson}
    (h : key ∈ ms.keys) : (ms.assign key value).keys = ms.keys := by
  induction ms with
  | nil => cases h
  | cons m ms ih =>
    obtain ⟨k, v⟩ := m
    by_cases hk : k = key
    · rw [assign, if_pos hk, keys, keys, List.map_cons, List.map_cons, hk]
    · have hmem : key ∈ keys ms := (List.mem_cons.mp h).resolve_left fun he => hk he.symm
      rw [assign, if_neg hk]
      exact congrArg (k :: ·) (ih hmem)

/-- Assigning keeps the keys apart. -/
theorem keys_assign_nodup {ms : RawMembers} {key : List UInt8} {value : RawJson}
    (h : ms.keys.Nodup) : (ms.assign key value).keys.Nodup := by
  by_cases hk : key ∈ ms.keys
  · rw [keys_assign_of_mem hk]
    exact h
  · rw [assign_of_not_mem hk, keys, List.map_append, List.nodup_append]
    refine ⟨h, by simp, ?_⟩
    intro a ha b hb hab
    rw [hab, List.mem_singleton.mp hb] at ha
    exact hk ha

end RawMembers

mutual

/-- The keys of each object are different. -/
def keyed : RawJson → Bool
  | .object members => decide (RawMembers.keys members).Nodup && keyedMembers members
  | .array items => keyedItems items
  | _ => true

def keyedItems : List RawJson → Bool
  | [] => true
  | item :: items => keyed item && keyedItems items

def keyedMembers : List (List UInt8 × RawJson) → Bool
  | [] => true
  | (_, value) :: members => keyed value && keyedMembers members

end

mutual

theorem sanitize_kept (value : RawJson) (hk : keyed value = true)
    (h : ∀ bytes ∈ texts value, ¬ LossyText bytes) : sanitize value = (value, false) := by
  cases value with
  | string bytes =>
    have hkept := sanitizeText_kept (h bytes (by simp [texts]))
    simp [sanitize, hkept]
  | array items =>
    have hkept := sanitizeItems_kept items (by simpa [keyed] using hk) (by simpa [texts] using h)
    simp [sanitize, hkept]
  | object members =>
    simp only [keyed, Bool.and_eq_true, decide_eq_true_eq] at hk
    have hkept := sanitizeMembers_kept [] members (by simpa using hk.1) hk.2 (by simpa [texts] using h)
    simp [sanitize, hkept]
  | null => rfl
  | bool b => rfl
  | number text => rfl

theorem sanitizeItems_kept (items : List RawJson) (hk : keyedItems items = true)
    (h : ∀ bytes ∈ itemTexts items, ¬ LossyText bytes) : sanitizeItems items = (items, false) := by
  match items with
  | [] => rfl
  | item :: items =>
    simp only [keyedItems, Bool.and_eq_true] at hk
    simp only [itemTexts, List.mem_append] at h
    have hitem := sanitize_kept item hk.1 fun b hb => h b (.inl hb)
    have hitems := sanitizeItems_kept items hk.2 fun b hb => h b (.inr hb)
    simp [sanitizeItems, hitem, hitems]

theorem sanitizeMembers_kept (clean : RawMembers) (members : List (List UInt8 × RawJson))
    (hn : (RawMembers.keys (clean ++ members)).Nodup) (hk : keyedMembers members = true)
    (h : ∀ bytes ∈ memberTexts members, ¬ LossyText bytes) :
    sanitizeMembers clean members = (clean ++ members, false) := by
  match members with
  | [] => simp [sanitizeMembers]
  | (key, value) :: members =>
    simp only [keyedMembers, Bool.and_eq_true] at hk
    simp only [memberTexts, List.cons_append, List.mem_cons, List.mem_append] at h
    have hkey := sanitizeText_kept (h key (.inl rfl))
    have hvalue := sanitize_kept value hk.1 fun b hb => h b (.inr (.inl hb))
    have hnew : key ∉ RawMembers.keys clean := by
      intro hm
      rw [RawMembers.keys, List.map_append, List.nodup_append] at hn
      exact hn.2.2 key hm key List.mem_cons_self rfl
    have happend : clean ++ [(key, value)] ++ members = clean ++ (key, value) :: members := by simp
    have hmembers := sanitizeMembers_kept (clean ++ [(key, value)]) members (by rwa [happend]) hk.2
      fun b hb => h b (.inr (.inr hb))
    simp [sanitizeMembers, hkey, hvalue, RawMembers.assign_of_not_mem hnew, hmembers]

end

theorem sanitizeMembers_nodup {clean : RawMembers} (members : List (List UInt8 × RawJson))
    (h : clean.keys.Nodup) : (sanitizeMembers clean members).1.keys.Nodup := by
  induction members generalizing clean with
  | nil => exact h
  | cons m members ih => exact ih (RawMembers.keys_assign_nodup h)

theorem sanitizeText_wellFormed (bytes : List UInt8) : WellFormed (sanitizeText bytes).1 := by
  obtain ⟨text, _, heq⟩ := sanitizeText_repairs bytes
  exact ⟨text, by rw [heq]⟩

/-- What stands in an object after an assignment stood there before, or comes with it. -/
theorem mem_memberTexts_assign {ms : RawMembers} {key : List UInt8} {value : RawJson}
    {bytes : List UInt8} (h : bytes ∈ memberTexts (ms.assign key value)) :
    bytes = key ∨ bytes ∈ texts value ∨ bytes ∈ memberTexts ms := by
  induction ms with
  | nil => simpa [RawMembers.assign, memberTexts] using h
  | cons m ms ih =>
    obtain ⟨k, v⟩ := m
    by_cases hk : k = key
    · simp only [RawMembers.assign, hk, if_true, memberTexts, List.cons_append, List.mem_cons,
        List.mem_append] at h ⊢
      rcases h with h | h | h
      · exact .inl h
      · exact .inr (.inl h)
      · exact .inr (.inr (.inr (.inr h)))
    · simp only [RawMembers.assign, hk, if_false, memberTexts, List.cons_append, List.mem_cons,
        List.mem_append] at h ⊢
      rcases h with h | h | h
      · exact .inr (.inr (.inl h))
      · exact .inr (.inr (.inr (.inl h)))
      · rcases ih h with h | h | h
        · exact .inl h
        · exact .inr (.inl h)
        · exact .inr (.inr (.inr (.inr h)))

theorem keyedMembers_assign {ms : RawMembers} {key : List UInt8} {value : RawJson}
    (hv : keyed value = true) (h : keyedMembers ms = true) :
    keyedMembers (ms.assign key value) = true := by
  induction ms with
  | nil => simp [RawMembers.assign, keyedMembers, hv]
  | cons m ms ih =>
    obtain ⟨k, v⟩ := m
    simp only [keyedMembers, Bool.and_eq_true] at h
    by_cases hk : k = key
    · simp [RawMembers.assign, hk, keyedMembers, hv, h.2]
    · simp [RawMembers.assign, hk, keyedMembers, h.1, ih h.2]

mutual

/-- **What has been sanitized is well formed** at every depth, and its keys are different. -/
theorem sanitize_sound (value : RawJson) : keyed (sanitize value).1 = true ∧
    ∀ bytes ∈ texts (sanitize value).1, WellFormed bytes := by
  cases value with
  | string bytes =>
    refine ⟨rfl, fun b hb => ?_⟩
    obtain rfl : b = (sanitizeText bytes).1 := by simpa [sanitize, texts] using hb
    exact sanitizeText_wellFormed bytes
  | array items => exact sanitizeItems_sound items
  | object members =>
    obtain ⟨hk, hw⟩ := sanitizeMembers_sound [] members rfl fun b hb => absurd hb List.not_mem_nil
    have hn : (sanitizeMembers [] members).1.keys.Nodup := sanitizeMembers_nodup members List.nodup_nil
    exact ⟨by simp [sanitize, keyed, hn, hk], hw⟩
  | null => exact ⟨rfl, fun b hb => absurd hb List.not_mem_nil⟩
  | bool b => exact ⟨rfl, fun b hb => absurd hb List.not_mem_nil⟩
  | number text => exact ⟨rfl, fun b hb => absurd hb List.not_mem_nil⟩

theorem sanitizeItems_sound (items : List RawJson) : keyedItems (sanitizeItems items).1 = true ∧
    ∀ bytes ∈ itemTexts (sanitizeItems items).1, WellFormed bytes := by
  match items with
  | [] => exact ⟨rfl, fun b hb => absurd hb List.not_mem_nil⟩
  | item :: items =>
    obtain ⟨hk, hw⟩ := sanitize_sound item
    obtain ⟨hks, hws⟩ := sanitizeItems_sound items
    refine ⟨by simp [sanitizeItems, keyedItems, hk, hks], fun b hb => ?_⟩
    rcases List.mem_append.mp hb with hb | hb
    · exact hw b hb
    · exact hws b hb

theorem sanitizeMembers_sound (clean : RawMembers) (members : List (List UInt8 × RawJson))
    (hk : keyedMembers clean = true) (hw : ∀ bytes ∈ memberTexts clean, WellFormed bytes) :
    keyedMembers (sanitizeMembers clean members).1 = true ∧
      ∀ bytes ∈ memberTexts (sanitizeMembers clean members).1, WellFormed bytes := by
  match members with
  | [] => exact ⟨hk, hw⟩
  | (key, value) :: members =>
    obtain ⟨hv, hvw⟩ := sanitize_sound value
    refine sanitizeMembers_sound _ members (keyedMembers_assign hv hk) fun b hb => ?_
    rcases mem_memberTexts_assign hb with rfl | hb | hb
    · exact sanitizeText_wellFormed key
    · exact hvw b hb
    · exact hw b hb

end

/-- What stands in a member stands in the object, and its keys are different where all are. -/
theorem get_sound {ms : RawMembers} {key : List UInt8} {value : RawJson}
    (h : ms.get key = some value) (hk : keyedMembers ms = true) :
    keyed value = true ∧ ∀ bytes ∈ texts value, bytes ∈ memberTexts ms := by
  induction ms with
  | nil => cases h
  | cons m ms ih =>
    obtain ⟨k, v⟩ := m
    simp only [keyedMembers, Bool.and_eq_true] at hk
    unfold RawMembers.get at h
    split at h
    · obtain rfl := Option.some.inj h
      exact ⟨hk.1, fun b hb => List.mem_append_left _ (List.mem_cons_of_mem _ hb)⟩
    · obtain ⟨hv, ht⟩ := ih h hk.2
      exact ⟨hv, fun b hb => List.mem_append_right _ (ht b hb)⟩

theorem keyedItems_append (items items' : List RawJson) :
    keyedItems (items ++ items') = (keyedItems items && keyedItems items') := by
  induction items with
  | nil => rfl
  | cons item items ih => simp [keyedItems, ih, Bool.and_assoc]

theorem itemTexts_append (items items' : List RawJson) :
    itemTexts (items ++ items') = itemTexts items ++ itemTexts items' := by
  induction items with
  | nil => rfl
  | cons item items ih => simp [itemTexts, ih]

theorem lossyDiagnostic_sound : keyed lossyDiagnostic = true ∧
    ∀ bytes ∈ texts lossyDiagnostic, WellFormed bytes := by
  refine ⟨by decide, ?_⟩
  simp only [lossyDiagnostic, texts, memberTexts, List.cons_append, List.nil_append,
    List.append_nil, List.forall_mem_cons, List.not_mem_nil, false_implies, implies_true, and_true]
  exact ⟨⟨_, rfl⟩, ⟨_, rfl⟩, ⟨_, rfl⟩, ⟨_, rfl⟩, ⟨_, rfl⟩, ⟨_, rfl⟩⟩

/-- The mark keeps what has been sanitized so. -/
theorem markLossy_sound {ms : RawMembers} (hn : ms.keys.Nodup) (hk : keyedMembers ms = true)
    (hw : ∀ bytes ∈ memberTexts ms, WellFormed bytes) :
    keyed (markLossy (.object ms)) = true ∧
      ∀ bytes ∈ texts (markLossy (.object ms)), WellFormed bytes := by
  obtain ⟨hdk, hdw⟩ := lossyDiagnostic_sound
  -- with the truth value, and then with the diagnostics
  have hmk : keyedMembers (ms.assign (bytesOf "encoding_lossy") (.bool true)) = true :=
    keyedMembers_assign rfl hk
  have hmw : ∀ bytes ∈ memberTexts (ms.assign (bytesOf "encoding_lossy") (.bool true)),
      WellFormed bytes := by
    intro b hb
    rcases mem_memberTexts_assign hb with rfl | hb | hb
    · exact ⟨_, rfl⟩
    · exact absurd hb List.not_mem_nil
    · exact hw b hb
  have hitems : ∀ items, keyedItems items = true → (∀ bytes ∈ itemTexts items, WellFormed bytes) →
      let out := (ms.assign (bytesOf "encoding_lossy") (.bool true)).assign (bytesOf "diagnostics")
        (.array (items ++ [lossyDiagnostic]))
      keyed (.object out) = true ∧ ∀ bytes ∈ texts (.object out), WellFormed bytes := by
    intro items hik hiw
    have hnodup : ((ms.assign (bytesOf "encoding_lossy") (.bool true)).assign
        (bytesOf "diagnostics") (.array (items ++ [lossyDiagnostic]))).keys.Nodup :=
      RawMembers.keys_assign_nodup (RawMembers.keys_assign_nodup hn)
    have hvalue : keyed (.array (items ++ [lossyDiagnostic])) = true := by
      simp [keyed, keyedItems_append, keyedItems, hik, hdk]
    refine ⟨by simp [keyed, hnodup, keyedMembers_assign hvalue hmk], fun b hb => ?_⟩
    rcases mem_memberTexts_assign hb with rfl | hb | hb
    · exact ⟨_, rfl⟩
    · have hb : b ∈ itemTexts (items ++ [lossyDiagnostic]) := hb
      rw [itemTexts_append, List.mem_append] at hb
      rcases hb with hb | hb
      · exact hiw b hb
      · exact hdw b (by simpa [itemTexts] using hb)
    · exact hmw b hb
  unfold markLossy
  dsimp only
  split
  · rename_i items hget
    obtain ⟨hik, hit⟩ := get_sound hget hmk
    exact hitems items hik fun b hb => hmw b (hit b hb)
  · exact hitems [] rfl fun b hb => absurd hb List.not_mem_nil

/-- **The value that is printed** is well formed at every depth, and its keys are different. -/
theorem safe_sound (members : List (List UInt8 × RawJson)) :
    keyed (safe (.object members)) = true ∧
      ∀ bytes ∈ texts (safe (.object members)), WellFormed bytes := by
  obtain ⟨hk, hw⟩ := sanitizeMembers_sound [] members rfl fun b hb => absurd hb List.not_mem_nil
  have hn : (sanitizeMembers [] members).1.keys.Nodup := sanitizeMembers_nodup members List.nodup_nil
  have hsound := sanitize_sound (.object members)
  have hmark := markLossy_sound hn hk hw
  unfold safe
  dsimp only
  split
  · exact hmark
  · exact hsound

/-! ## 5. What is printed -/

mutual

/-- **The JSON value that a value stands for**; the order of members does not matter. -/
inductive Denotes : RawJson → JsonValue → Prop
  | null : Denotes .null .null
  | bool {b : Bool} : Denotes (.bool b) (.bool b)
  | number {text : NumberText} : Denotes (.number text) (.number text.val)
  | string {text : List Char} : Denotes (.string (encode text)) (.string text)
  | array {items : List RawJson} {vs : List JsonValue} (h : DenotesItems items vs) :
      Denotes (.array items) (.array vs)
  | object {members : List (List UInt8 × RawJson)} {ms ms' : List (List Char × JsonValue)}
      (h : DenotesMembers members ms) (hp : ms.Perm ms') : Denotes (.object members) (.object ms')

inductive DenotesItems : List RawJson → List JsonValue → Prop
  | nil : DenotesItems [] []
  | cons {item : RawJson} {v : JsonValue} {items : List RawJson} {vs : List JsonValue}
      (h : Denotes item v) (hs : DenotesItems items vs) : DenotesItems (item :: items) (v :: vs)

inductive DenotesMembers : List (List UInt8 × RawJson) → List (List Char × JsonValue) → Prop
  | nil : DenotesMembers [] []
  | cons {key : List Char} {value : RawJson} {v : JsonValue}
      {members : List (List UInt8 × RawJson)} {ms : List (List Char × JsonValue)}
      (h : Denotes value v) (hs : DenotesMembers members ms) :
      DenotesMembers ((encode key, value) :: members) ((key, v) :: ms)

end

/-- **The printed text of a value**: JSON in UTF-8 that parses to what the value stands for. -/
def Prints (out : List UInt8) (value : RawJson) : Prop :=
  ∃ text v, encode text = out ∧ Parses text v ∧ Denotes value v

/-- What is asked of the printer: a value whose keys are different and that stands for a JSON value
    is printed. Nothing is asked of it for texts that are ill-formed. -/
def PrintsValue (formatv : RawJson → List UInt8) (value : RawJson) : Prop :=
  keyed value = true → (∃ v, Denotes value v) → Prints (formatv value) value

mutual

/-- **A value stands for a JSON value** where its keys and strings are well formed. -/
theorem exists_denotes (value : RawJson) (h : ∀ bytes ∈ texts value, WellFormed bytes) :
    ∃ v, Denotes value v := by
  cases value with
  | null => exact ⟨_, .null⟩
  | bool b => exact ⟨_, .bool⟩
  | number text => exact ⟨_, .number⟩
  | string bytes =>
    obtain ⟨text, rfl⟩ := h bytes (by simp [texts])
    exact ⟨_, .string⟩
  | array items =>
    obtain ⟨vs, hvs⟩ := exists_denotesItems items (by simpa [texts] using h)
    exact ⟨_, .array hvs⟩
  | object members =>
    obtain ⟨ms, hms⟩ := exists_denotesMembers members (by simpa [texts] using h)
    exact ⟨_, .object hms (.refl _)⟩

theorem exists_denotesItems (items : List RawJson)
    (h : ∀ bytes ∈ itemTexts items, WellFormed bytes) : ∃ vs, DenotesItems items vs := by
  match items with
  | [] => exact ⟨_, .nil⟩
  | item :: items =>
    simp only [itemTexts, List.mem_append] at h
    obtain ⟨v, hv⟩ := exists_denotes item fun b hb => h b (.inl hb)
    obtain ⟨vs, hvs⟩ := exists_denotesItems items fun b hb => h b (.inr hb)
    exact ⟨_, .cons hv hvs⟩

theorem exists_denotesMembers (members : List (List UInt8 × RawJson))
    (h : ∀ bytes ∈ memberTexts members, WellFormed bytes) : ∃ ms, DenotesMembers members ms := by
  match members with
  | [] => exact ⟨_, .nil⟩
  | (key, value) :: members =>
    simp only [memberTexts, List.cons_append, List.mem_cons, List.mem_append] at h
    obtain ⟨k, rfl⟩ := h key (.inl rfl)
    obtain ⟨v, hv⟩ := exists_denotes value fun b hb => h b (.inr (.inl hb))
    obtain ⟨ms, hms⟩ := exists_denotesMembers members fun b hb => h b (.inr (.inr hb))
    exact ⟨_, .cons hv hms⟩

end

theorem DenotesMembers.keys {members : List (List UInt8 × RawJson)} {ms : Members}
    (h : DenotesMembers members ms) : RawMembers.keys members = ms.map fun m => encode m.1 := by
  match h with
  | .nil => rfl
  | .cons _ hs =>
    exact congrArg _ hs.keys

/-- Members under different keys are found wherever they stand. -/
theorem get_eq_some_iff {ms : Members} (h : (ms.map Prod.fst).Nodup) {key : List Char}
    {v : JsonValue} : Members.get ms key = some v ↔ (key, v) ∈ ms := by
  induction ms with
  | nil => simp
  | cons m ms ih =>
    obtain ⟨k, w⟩ := m
    obtain ⟨hk, hms⟩ := List.nodup_cons.mp h
    have ih := ih hms
    by_cases he : k = key
    · subst he
      have hnot : (k, v) ∉ ms := by
        intro hm
        exact hk (List.mem_map.mpr ⟨(k, v), hm, rfl⟩)
      simp [Members.get, hnot, eq_comm]
    · have hne : ¬ key = k := fun heq => he heq.symm
      simp [Members.get, he, ih, hne]

theorem get_perm {ms ms' : Members} (hp : ms.Perm ms') (h : (ms.map Prod.fst).Nodup)
    (key : List Char) : Members.get ms' key = Members.get ms key := by
  have h' : (ms'.map Prod.fst).Nodup := (hp.map Prod.fst).nodup_iff.mp h
  refine Option.ext fun v => ?_
  rw [get_eq_some_iff h, get_eq_some_iff h', hp.mem_iff]

/-- A truth value is found under the same key. -/
theorem DenotesMembers.get_bool {members : List (List UInt8 × RawJson)} {ms : Members}
    (h : DenotesMembers members ms) (key : List Char) (b : Bool) :
    Members.get ms key = some (.bool b) ↔ RawMembers.get members (encode key) = some (.bool b) := by
  induction members generalizing ms with
  | nil =>
    cases h
    simp [RawMembers.get]
  | cons member members ih =>
    cases h with
    | @cons k value v _ ms hv hs =>
      by_cases hk : k = key
      · subst hk
        simp only [Members.get, RawMembers.get, if_true]
        constructor
        · intro he
          obtain rfl := Option.some.inj he
          cases hv
          rfl
        · intro he
          obtain rfl := Option.some.inj he
          cases hv
          rfl
      · have hne : encode k ≠ encode key := fun he => hk (encode_inj he)
        rw [Members.get, RawMembers.get, if_neg hk, if_neg hne]
        exact ih hs

theorem Denotes.get_bool {members : List (List UInt8 × RawJson)} {v : JsonValue}
    (h : Denotes (.object members) v) (hn : (RawMembers.keys members).Nodup) (key : List Char)
    (b : Bool) :
    v.get key = some (.bool b) ↔ RawMembers.get members (encode key) = some (.bool b) := by
  cases h with
  | @object _ ms ms' h hp =>
    have hnodup : (ms.map Prod.fst).Nodup := by
      rw [h.keys, ← Function.comp_def encode Prod.fst, ← List.map_map] at hn
      exact hn.of_map
    rw [JsonValue.get_object, get_perm hp hnodup]
    exact h.get_bool key b

/-! ## 6. What goes to the outside -/

theorem sanitize_object (members : List (List UInt8 × RawJson)) :
    sanitize (.object members) =
      (.object (sanitizeMembers [] members).1, (sanitizeMembers [] members).2) := rfl

/-- The members of the object that is printed where nothing was lost, and where something was. -/
theorem safe_object (members : List (List UInt8 × RawJson)) : ∃ ms, safe (.object members) = .object ms ∧
    (RawMembers.keys ms).Nodup ∧ (Lossy (.object members) →
      RawMembers.get ms (bytesOf "encoding_lossy") = some (.bool true)) := by
  have hclean : (RawMembers.keys (sanitizeMembers [] members).1).Nodup :=
    sanitizeMembers_nodup members List.nodup_nil
  have hlossy : (sanitizeMembers [] members).2 = true ↔ Lossy (.object members) :=
    sanitize_lossy (.object members)
  unfold safe
  rw [sanitize_object]
  dsimp only
  cases hl : (sanitizeMembers [] members).2 with
  | false =>
    rw [hl] at hlossy
    refine ⟨_, rfl, hclean, fun h => ?_⟩
    cases hlossy.mpr h
  | true =>
    have hmark : (RawMembers.keys (RawMembers.assign (sanitizeMembers [] members).1
        (bytesOf "encoding_lossy") (.bool true))).Nodup := RawMembers.keys_assign_nodup hclean
    refine ⟨_, rfl, RawMembers.keys_assign_nodup hmark, fun _ => ?_⟩
    rw [RawMembers.get_assign, if_neg (by decide), RawMembers.get_assign, if_pos rfl]

/-- **What goes to the outside.** Every byte string is repaired: it comes out well formed, as it was
    where it was well formed, and the same when it is repaired again. An object is printed with
    texts that are well formed at every depth, whatever bytes it holds; one without a member
    `encoding_lossy` is printed with one exactly where some key or string of it was lossy, and
    otherwise the printed text stands for the same value. -/
theorem dump_json_sanitizes :
    (∀ input : List UInt8, ∃ text, Repairs input text ∧ (sanitizeText input).1 = encode text ∧
      (WellFormed input → (sanitizeText input).1 = input) ∧
      ((sanitizeText input).2 = true ↔ LossyText input) ∧
      sanitizeText (sanitizeText input).1 = (encode text, (sanitizeText input).2)) ∧
    ∀ (formatv : RawJson → List UInt8) (members : List (List UInt8 × RawJson)),
      keyed (.object members) = true → RawMembers.get members (bytesOf "encoding_lossy") = none →
      PrintsValue formatv (safe (.object members)) →
      ∃ text v, encode text = dumpJson formatv (.object members) ∧ Parses text v ∧
        (∀ bytes ∈ texts (safe (.object members)), WellFormed bytes) ∧
        Denotes (safe (.object members)) v ∧
        (v.get "encoding_lossy".toList = some (.bool true) ↔ Lossy (.object members)) ∧
        (¬ Lossy (.object members) → Denotes (.object members) v) := by
  constructor
  · intro input
    obtain ⟨text, hrepairs, heq⟩ := sanitizeText_repairs input
    refine ⟨text, hrepairs, by rw [heq], ?_, sanitizeText_lossy, ?_⟩
    · intro hw
      rw [heq]
      exact hrepairs.wellFormed_iff.mp hw
    · obtain ⟨text', hrepairs', heq'⟩ := sanitizeText_repairs (encode text)
      obtain rfl := hrepairs'.unique (Repairs.encode text)
      rw [heq, heq']
  · intro formatv members hkeyed hnone hprints
    obtain ⟨hsafeKeyed, hwell⟩ := safe_sound members
    obtain ⟨text, v, hout, hparses, hdenotes⟩ := hprints hsafeKeyed (exists_denotes _ hwell)
    refine ⟨text, v, hout, hparses, hwell, hdenotes, ?_⟩
    have hsafe : ¬ Lossy (.object members) → safe (.object members) = .object members := by
      intro hl
      have hkept := sanitize_kept (.object members) hkeyed fun b hb ht => hl ⟨b, hb, ht⟩
      unfold safe
      rw [hkept]
      rfl
    constructor
    · obtain ⟨ms, hms, hnodup, hmark⟩ := safe_object members
      rw [hms] at hdenotes
      rw [hdenotes.get_bool hnodup]
      refine ⟨fun h => ?_, hmark⟩
      by_contra hl
      rw [hsafe hl] at hms
      obtain rfl := RawJson.object.inj hms
      rw [show encode "encoding_lossy".toList = bytesOf "encoding_lossy" from rfl, hnone] at h
      cases h
    · intro hl
      rw [hsafe hl] at hdenotes
      exact hdenotes

/-! ### An object with a byte that belongs to no scalar value -/

namespace Sample

def members : List (List UInt8 × RawJson) := [(bytesOf "text", .string [0x78, 0xff])]

def printed : JsonValue :=
  .object [("diagnostics".toList, .array [.object [("kind".toList, .string "text_encoding".toList),
      ("replacement".toList, .string "U+FFFD".toList), ("status".toList, .string "lossy".toList)]]),
    ("encoding_lossy".toList, .bool true), ("text".toList, .string ['x', replacement])]

theorem sanitize_string : sanitizeText [0x78, 0xff] = (encode ['x', replacement], true) := by
  have hx : scalarAt [0x78, 0xff] = some (1, 0x78) := by decide
  have hff : scalarAt [0xff] = none := by decide
  rw [sanitizeText, hx]
  simp only [Nat.sub_self, List.drop_zero, List.take_zero]
  rw [sanitizeText, hff]
  simp only
  rw [sanitizeText]
  decide

theorem sanitize_key : sanitizeText (bytesOf "text") = (bytesOf "text", false) := by
  refine sanitizeText_kept fun hlossy => ?_
  rcases hlossy with hw | ⟨text, htext, hr⟩
  · exact hw ⟨_, rfl⟩
  · rw [encode_inj htext] at hr
    exact absurd hr (by decide)

theorem safe_members : safe (.object members) =
    .object [(bytesOf "text", .string (encode ['x', replacement])),
      (bytesOf "encoding_lossy", .bool true), (bytesOf "diagnostics", .array [lossyDiagnostic])] := by
  have hclean : sanitizeMembers [] members =
      ([(bytesOf "text", .string (encode ['x', replacement]))], true) := by
    simp [sanitizeMembers, members, sanitize_key, sanitize, sanitize_string, RawMembers.assign]
  have hne : bytesOf "text" ≠ bytesOf "encoding_lossy" := by decide
  have hne' : bytesOf "text" ≠ bytesOf "diagnostics" := by decide
  have hne'' : bytesOf "encoding_lossy" ≠ bytesOf "diagnostics" := by decide
  unfold safe
  rw [sanitize_object, hclean]
  simp [markLossy, RawMembers.assign, RawMembers.get, hne, hne', hne'']

theorem denotes_printed : Denotes (safe (.object members)) printed := by
  rw [safe_members]
  refine .object (.cons .string (.cons .bool (.cons (.array (.cons ?_ .nil)) .nil)))
    (List.reverse_perm _).symm
  exact .object (.cons .string (.cons .string (.cons .string .nil))) (.cons _ (.swap _ _ _))

/-- The printer of this object. -/
def formatv (_ : RawJson) : List UInt8 := encode (Installer.Printer.toStringPretty printed)

end Sample

open Sample in
theorem dump_json_marks_sample : ∃ text v, encode text = dumpJson formatv (.object members) ∧
    Parses text v ∧ (∀ bytes ∈ texts (safe (.object members)), WellFormed bytes) ∧
    Denotes (safe (.object members)) v ∧
    (v.get "encoding_lossy".toList = some (.bool true) ↔ Lossy (.object members)) ∧
    (¬ Lossy (.object members) → Denotes (.object members) v) :=
  dump_json_sanitizes.2 formatv members (by decide) (by decide) fun _ _ =>
    ⟨_, printed, rfl, Installer.Printer.parses_toStringPretty (by decide), denotes_printed⟩

end Irez.Dump
