/-
  File:      Irez/Basis/Json.lean
  Subject:   JSON texts: values, tokens, the grammar over tokens, and a scanner of characters.

  A text is read in two steps. The scanner cuts it into tokens, whatever they are; the grammar
  says which sequences of tokens spell a value. A number is kept as it is written.

  * `Spells` -- the tokens that spell a value;
  * `lex` -- the scanner; `Parses` -- a text whose tokens spell a value;
  * `Spells.orderly` -- no comma stands before a closing mark, and no two words side by side;
  * `lex_spaced` -- the tokens of a text that separates orderly tokens by spaces;
  * `spaced_of_lex` -- every text that is read is of this kind.
-/
import Mathlib.Data.List.Chain
import Mathlib.Tactic.Common

namespace Irez.Basis.Json

/-! ## 1. Values -/

/-- A JSON value; a number is its text, and an object its members in order. -/
inductive JsonValue where
  | null
  | bool (b : Bool)
  | number (text : List Char)
  | string (text : List Char)
  | array (items : List JsonValue)
  | object (members : List (List Char × JsonValue))

/-- `ws` of the grammar. -/
def isSpace (c : Char) : Bool := c = ' ' || c = '\t' || c = '\n' || c = '\r'

/-! ### Numbers -/

/-- How far the text of a number has been read. -/
inductive NumberState where
  | start
  | minus
  | zero
  | digits
  | point
  | fraction
  | exponent
  | sign
  | power
  deriving DecidableEq, Repr

def NumberState.step : NumberState → Char → Option NumberState
  | .start, c =>
    if c = '-' then some .minus else if c = '0' then some .zero
    else if c.isDigit then some .digits else none
  | .minus, c => if c = '0' then some .zero else if c.isDigit then some .digits else none
  | .zero, c =>
    if c = '.' then some .point else if c = 'e' || c = 'E' then some .exponent else none
  | .digits, c =>
    if c.isDigit then some .digits else if c = '.' then some .point
    else if c = 'e' || c = 'E' then some .exponent else none
  | .point, c => if c.isDigit then some .fraction else none
  | .fraction, c =>
    if c.isDigit then some .fraction else if c = 'e' || c = 'E' then some .exponent else none
  | .exponent, c =>
    if c = '+' || c = '-' then some .sign else if c.isDigit then some .power else none
  | .sign, c => if c.isDigit then some .power else none
  | .power, c => if c.isDigit then some .power else none

def NumberState.complete : NumberState → Bool
  | .zero | .digits | .fraction | .power => true
  | _ => false

/-- `number` of the grammar. -/
def isNumber (text : List Char) : Bool :=
  (text.foldlM NumberState.step .start).any NumberState.complete

/-! ### Strings -/

/-- The value of a hexadecimal digit. -/
def hexDigit (c : Char) : Option Nat :=
  if c.isDigit then some (c.toNat - '0'.toNat)
  else if 'a' ≤ c ∧ c ≤ 'f' then some (c.toNat - 'a'.toNat + 10)
  else if 'A' ≤ c ∧ c ≤ 'F' then some (c.toNat - 'A'.toNat + 10)
  else none

/-- The value of four hexadecimal digits. -/
def hex4 (a b c d : Char) : Option Nat := do
  let a ← hexDigit a
  let b ← hexDigit b
  let c ← hexDigit c
  let d ← hexDigit d
  some (((a * 16 + b) * 16 + c) * 16 + d)

/-- The character of an escape of one letter. -/
def escaped : Char → Option Char
  | '"' => some '"'
  | '\\' => some '\\'
  | '/' => some '/'
  | 'b' => some '\x08'
  | 'f' => some '\x0c'
  | 'n' => some '\n'
  | 'r' => some '\r'
  | 't' => some '\t'
  | _ => none

/-- A unit of sixteen bits, or a character written out. -/
inductive StringUnit where
  | unit (n : Nat)
  | char (c : Char)
  deriving DecidableEq, Repr

/-- The units of the text between the quotes. -/
def stringUnits : List Char → Option (List StringUnit)
  | [] => some []
  | '\\' :: 'u' :: a :: b :: c :: d :: rest => do
    let n ← hex4 a b c d
    let units ← stringUnits rest
    some (.unit n :: units)
  | '\\' :: e :: rest => do
    let c ← escaped e
    let units ← stringUnits rest
    some (.char c :: units)
  | c :: rest =>
    if c = '\\' ∨ c = '"' ∨ c.toNat < 0x20 then none
    else (stringUnits rest).map (.char c :: ·)

/-- The characters of units; a surrogate must have its other half. -/
def charsOf : List StringUnit → Option (List Char)
  | [] => some []
  | .char c :: rest => (charsOf rest).map (c :: ·)
  | .unit hi :: .unit lo :: rest =>
    if 0xD800 ≤ hi ∧ hi < 0xDC00 then
      if 0xDC00 ≤ lo ∧ lo < 0xE000 then
        (charsOf rest).map (Char.ofNat ((hi - 0xD800) * 0x400 + (lo - 0xDC00) + 0x10000) :: ·)
      else none
    else if 0xDC00 ≤ hi ∧ hi < 0xE000 then none
    else (charsOf (.unit lo :: rest)).map (Char.ofNat hi :: ·)
  | .unit n :: rest =>
    if 0xD800 ≤ n ∧ n < 0xE000 then none else (charsOf rest).map (Char.ofNat n :: ·)

/-- The string that the text between the quotes stands for. -/
def unescape (raw : List Char) : Option (List Char) := (stringUnits raw).bind charsOf

/-! ## 2. Tokens -/

inductive Mark where
  | openBrace
  | closeBrace
  | openBracket
  | closeBracket
  | colon
  | comma
  deriving DecidableEq, Repr

def Mark.char : Mark → Char
  | .openBrace => '{'
  | .closeBrace => '}'
  | .openBracket => '['
  | .closeBracket => ']'
  | .colon => ':'
  | .comma => ','

/-- The mark that a character is. -/
def markOf (c : Char) : Option Mark :=
  if c = '{' then some .openBrace else if c = '}' then some .closeBrace
  else if c = '[' then some .openBracket else if c = ']' then some .closeBracket
  else if c = ':' then some .colon else if c = ',' then some .comma else none

/-- The characters of words: literal names and numbers. -/
def isWordChar (c : Char) : Bool :=
  c.isDigit || c = '+' || c = '-' || c = '.' || ('a' ≤ c && c ≤ 'z') || ('A' ≤ c && c ≤ 'Z')

/-- A token; a string is the text between its quotes. -/
inductive Token where
  | mark (m : Mark)
  | string (raw : List Char)
  | word (text : List Char)
  deriving DecidableEq, Repr

namespace Token

def text : Token → List Char
  | .mark m => [m.char]
  | .string raw => '"' :: raw ++ ['"']
  | .word w => w

/-- A closing bracket or brace. -/
def closes : Token → Bool
  | .mark .closeBrace | .mark .closeBracket => true
  | _ => false

def isWord : Token → Bool
  | .word _ => true
  | _ => false

end Token

/-! ## 3. The grammar -/

mutual

/-- **The tokens that spell a value.** -/
inductive Spells : JsonValue → List Token → Prop
  | null : Spells .null [.word "null".toList]
  | true : Spells (.bool true) [.word "true".toList]
  | false : Spells (.bool false) [.word "false".toList]
  | number {w : List Char} (h : isNumber w = true) : Spells (.number w) [.word w]
  | string {raw s : List Char} (h : unescape raw = some s) : Spells (.string s) [.string raw]
  | emptyArray : Spells (.array []) [.mark .openBracket, .mark .closeBracket]
  | array {items : List JsonValue} {toks : List Token} (h : SpellsItems items toks) :
      Spells (.array items) (.mark .openBracket :: toks ++ [.mark .closeBracket])
  | emptyObject : Spells (.object []) [.mark .openBrace, .mark .closeBrace]
  | object {members : List (List Char × JsonValue)} {toks : List Token}
      (h : SpellsMembers members toks) :
      Spells (.object members) (.mark .openBrace :: toks ++ [.mark .closeBrace])

/-- Items, separated by commas. -/
inductive SpellsItems : List JsonValue → List Token → Prop
  | one {v : JsonValue} {toks : List Token} (h : Spells v toks) : SpellsItems [v] toks
  | more {v : JsonValue} {vs : List JsonValue} {toks rest : List Token} (h : Spells v toks)
      (hs : SpellsItems vs rest) : SpellsItems (v :: vs) (toks ++ .mark .comma :: rest)

/-- Members, separated by commas. -/
inductive SpellsMembers : List (List Char × JsonValue) → List Token → Prop
  | one {raw k : List Char} {v : JsonValue} {toks : List Token} (hk : unescape raw = some k)
      (h : Spells v toks) : SpellsMembers [(k, v)] (.string raw :: .mark .colon :: toks)
  | more {raw k : List Char} {v : JsonValue} {vs : List (List Char × JsonValue)} {toks rest : List Token}
      (hk : unescape raw = some k) (h : Spells v toks) (hs : SpellsMembers vs rest) :
      SpellsMembers ((k, v) :: vs) (.string raw :: .mark .colon :: toks ++ .mark .comma :: rest)

end

/-! ## 4. What the tokens of a value have in common -/

/-- Two tokens that may stand side by side. -/
def Token.Follows (t u : Token) : Prop :=
  (t = .mark .comma → u.closes = false) ∧ (t.isWord = true → u.isWord = false)

/-- Text between quotes: a quote or a backslash in it is escaped. -/
inductive StringBody : List Char → Prop
  | nil : StringBody []
  | plain {c : Char} {rest : List Char} (hq : c ≠ '"') (hb : c ≠ '\\') (h : StringBody rest) :
      StringBody (c :: rest)
  | escape {c : Char} {rest : List Char} (h : StringBody rest) : StringBody ('\\' :: c :: rest)

/-- A token that the scanner can read. -/
def Token.Valid : Token → Prop
  | .mark _ => True
  | .string raw => StringBody raw
  | .word w => w ≠ [] ∧ ∀ c ∈ w, isWordChar c = true

/-- **Tokens in order**: each pair of neighbours may stand side by side, the first does not
    close, and the last is no comma. -/
structure Orderly (toks : List Token) : Prop where
  chain : toks.IsChain Token.Follows
  head : ∀ t ∈ toks.head?, t.closes = false
  last : ∀ t ∈ toks.getLast?, t ≠ .mark .comma
  valid : ∀ t ∈ toks, t.Valid
  ne_nil : toks ≠ []

theorem orderly_singleton {t : Token} (hc : t.closes = false) (hm : t ≠ .mark .comma)
    (hv : t.Valid) : Orderly [t] where
  chain := .singleton t
  head u hu := by
    obtain rfl := Option.some.inj hu
    exact hc
  last u hu := by
    obtain rfl := Option.some.inj hu
    exact hm
  valid u hu := by
    obtain rfl := List.mem_singleton.mp hu
    exact hv
  ne_nil := List.cons_ne_nil _ _

/-- Orderly tokens with a comma between them. -/
theorem Orderly.comma {toks rest : List Token} (h : Orderly toks) (hr : Orderly rest) :
    Orderly (toks ++ .mark .comma :: rest) where
  chain := by
    refine List.IsChain.append h.chain ?_ ?_
    · refine hr.chain.cons fun t ht => ?_
      exact ⟨fun _ => hr.head t ht, fun hw => by cases hw⟩
    · intro t _ u hu
      obtain rfl := Option.some.inj hu
      exact ⟨fun _ => rfl, fun _ => rfl⟩
  head t ht := by
    rw [List.head?_append_of_ne_nil _ h.ne_nil] at ht
    exact h.head t ht
  last t ht := by
    rw [List.append_cons, List.getLast?_append_of_ne_nil _ hr.ne_nil] at ht
    exact hr.last t ht
  valid t ht := by
    rcases List.mem_append.mp ht with ht | ht
    · exact h.valid t ht
    · rcases List.mem_cons.mp ht with rfl | ht
      · trivial
      · exact hr.valid t ht
  ne_nil := by simp

/-- Orderly tokens between brackets or braces. -/
theorem Orderly.wrap {toks : List Token} (h : Orderly toks) {o c : Mark}
    (ho : (Token.mark o).closes = false) (hoc : o ≠ .comma) (hc : c ≠ .comma) :
    Orderly (.mark o :: toks ++ [.mark c]) where
  chain := by
    refine List.IsChain.append (h.chain.cons fun t _ => ?_) (.singleton _) ?_
    · exact ⟨fun he => absurd (Token.mark.inj he) hoc, fun hw => by cases hw⟩
    · intro t ht u hu
      obtain rfl := Option.some.inj hu
      rw [List.getLast?_cons_of_ne_nil h.ne_nil] at ht
      exact ⟨fun he => absurd he (h.last t ht), fun _ => rfl⟩
  head t ht := by
    obtain rfl := Option.some.inj ht
    exact ho
  last t ht := by
    rw [List.getLast?_concat] at ht
    obtain rfl := Option.some.inj ht
    exact fun he => hc (Token.mark.inj he)
  valid t ht := by
    rcases List.mem_append.mp ht with ht | ht
    · rcases List.mem_cons.mp ht with rfl | ht
      · trivial
      · exact h.valid t ht
    · rw [List.mem_singleton.mp ht]
      trivial
  ne_nil := by simp

/-- Brackets or braces around nothing. -/
theorem orderly_empty {o c : Mark} (ho : (Token.mark o).closes = false) (hoc : o ≠ .comma)
    (hc : c ≠ .comma) : Orderly [.mark o, .mark c] where
  chain := by
    refine (List.IsChain.singleton _).cons fun t _ => ?_
    exact ⟨fun he => absurd (Token.mark.inj he) hoc, fun hw => (by cases hw)⟩
  head t ht := by
    obtain rfl := Option.some.inj ht
    exact ho
  last t ht := by
    obtain rfl := Option.some.inj ht
    exact fun he => hc (Token.mark.inj he)
  valid t ht := by
    rcases List.mem_cons.mp ht with rfl | ht
    · trivial
    · rw [List.mem_singleton.mp ht]
      trivial
  ne_nil := List.cons_ne_nil _ _

/-- Orderly tokens behind the name of a member. -/
theorem Orderly.member {toks : List Token} (h : Orderly toks) {raw : List Char}
    (hr : StringBody raw) : Orderly (.string raw :: .mark .colon :: toks) where
  chain := by
    refine (h.chain.cons fun t _ => ?_).cons fun t ht => ?_
    · exact ⟨fun he => (by cases he), fun hw => (by cases hw)⟩
    · exact ⟨fun he => (by cases he), fun hw => (by cases hw)⟩
  head t ht := by
    obtain rfl := Option.some.inj ht
    rfl
  last t ht := by
    rw [List.getLast?_cons_of_ne_nil (List.cons_ne_nil _ _),
      List.getLast?_cons_of_ne_nil h.ne_nil] at ht
    exact h.last t ht
  valid t ht := by
    rcases List.mem_cons.mp ht with rfl | ht
    · exact hr
    · rcases List.mem_cons.mp ht with rfl | ht
      · trivial
      · exact h.valid t ht
  ne_nil := List.cons_ne_nil _ _

/-! ### Words and strings -/

theorem NumberState.step_isWordChar {s s' : NumberState} {c : Char} (h : s.step c = some s') :
    isWordChar c = true := by
  by_contra hw
  have hplain : ∀ x : Char, isWordChar x = true → c ≠ x := by
    rintro x hx rfl
    exact hw hx
  have hdigit : c.isDigit = false := by
    refine Bool.eq_false_iff.mpr fun hd => hw ?_
    simp only [isWordChar, hd, Bool.true_or]
  have h₁ := hplain '-' (by decide)
  have h₂ := hplain '0' (by decide)
  have h₃ := hplain '.' (by decide)
  have h₄ := hplain 'e' (by decide)
  have h₅ := hplain 'E' (by decide)
  have h₆ := hplain '+' (by decide)
  cases s <;> simp [NumberState.step, h₁, h₂, h₃, h₄, h₅, h₆, hdigit] at h

theorem NumberState.steps_isWordChar {w : List Char} {s s' : NumberState}
    (h : w.foldlM NumberState.step s = some s') : ∀ c ∈ w, isWordChar c = true := by
  induction w generalizing s with
  | nil => exact fun c hc => absurd hc List.not_mem_nil
  | cons x w ih =>
    rw [List.foldlM_cons] at h
    obtain ⟨s₁, h₁, h⟩ := Option.bind_eq_some_iff.mp h
    intro c hc
    rcases List.mem_cons.mp hc with rfl | hc
    · exact step_isWordChar h₁
    · exact ih h c hc

theorem isNumber_valid {w : List Char} (h : isNumber w = true) : (Token.word w).Valid := by
  unfold isNumber at h
  cases hs : w.foldlM NumberState.step .start with
  | none =>
    rw [hs] at h
    cases h
  | some s =>
    refine ⟨fun hw => ?_, NumberState.steps_isWordChar hs⟩
    subst hw
    cases hs
    cases h

theorem hexDigit_plain {c : Char} {n : Nat} (h : hexDigit c = some n) : c ≠ '"' ∧ c ≠ '\\' := by
  have hquote : hexDigit '"' = none := by decide
  have hslash : hexDigit '\\' = none := by decide
  constructor
  · rintro rfl
    rw [hquote] at h
    cases h
  · rintro rfl
    rw [hslash] at h
    cases h

/-- A text that has a meaning between quotes escapes its quotes. -/
theorem stringUnits_body {raw : List Char} {units : List StringUnit}
    (h : stringUnits raw = some units) : StringBody raw := by
  fun_induction stringUnits raw generalizing units with
  | case1 => exact .nil
  | case2 a b c d rest ih =>
    obtain ⟨n, hn, h⟩ := Option.bind_eq_some_iff.mp h
    obtain ⟨rest', hrest, _⟩ := Option.bind_eq_some_iff.mp h
    unfold hex4 at hn
    obtain ⟨_, ha, hn⟩ := Option.bind_eq_some_iff.mp hn
    obtain ⟨_, hb, hn⟩ := Option.bind_eq_some_iff.mp hn
    obtain ⟨_, hc, hn⟩ := Option.bind_eq_some_iff.mp hn
    obtain ⟨_, hd, _⟩ := Option.bind_eq_some_iff.mp hn
    have ⟨ha, ha'⟩ := hexDigit_plain ha
    have ⟨hb, hb'⟩ := hexDigit_plain hb
    have ⟨hc, hc'⟩ := hexDigit_plain hc
    have ⟨hd, hd'⟩ := hexDigit_plain hd
    exact .escape (.plain ha ha' (.plain hb hb' (.plain hc hc' (.plain hd hd' (ih hrest)))))
  | case3 e rest hne ih =>
    obtain ⟨_, _, h⟩ := Option.bind_eq_some_iff.mp h
    obtain ⟨rest', hrest, _⟩ := Option.bind_eq_some_iff.mp h
    exact .escape (ih hrest)
  | case4 c rest hne hne' hbad => cases h
  | case5 c rest hne hne' hok ih =>
    obtain ⟨rest', hrest, _⟩ := Option.map_eq_some_iff.mp h
    rw [not_or, not_or] at hok
    exact .plain hok.2.1 hok.1 (ih hrest)

/-! ### Values -/

theorem orderly_word {w : List Char} (h : (Token.word w).Valid) : Orderly [.word w] :=
  orderly_singleton rfl (fun he => by cases he) h

mutual

/-- **The tokens of the grammar.** An escape may name half of a surrogate pair: such a string
    stands for no text, and yet the grammar has it. -/
inductive IsValue : List Token → Prop
  | word {w : List Char} (h : w ∈ ["null".toList, "true".toList, "false".toList]) :
      IsValue [.word w]
  | number {w : List Char} (h : isNumber w = true) : IsValue [.word w]
  | string {raw : List Char} (h : (stringUnits raw).isSome = true) : IsValue [.string raw]
  | emptyArray : IsValue [.mark .openBracket, .mark .closeBracket]
  | array {toks : List Token} (h : IsItems toks) :
      IsValue (.mark .openBracket :: toks ++ [.mark .closeBracket])
  | emptyObject : IsValue [.mark .openBrace, .mark .closeBrace]
  | object {toks : List Token} (h : IsMembers toks) :
      IsValue (.mark .openBrace :: toks ++ [.mark .closeBrace])

inductive IsItems : List Token → Prop
  | one {toks : List Token} (h : IsValue toks) : IsItems toks
  | more {toks rest : List Token} (h : IsValue toks) (hs : IsItems rest) :
      IsItems (toks ++ .mark .comma :: rest)

inductive IsMembers : List Token → Prop
  | one {raw : List Char} {toks : List Token} (hk : (stringUnits raw).isSome = true)
      (h : IsValue toks) : IsMembers (.string raw :: .mark .colon :: toks)
  | more {raw : List Char} {toks rest : List Token} (hk : (stringUnits raw).isSome = true)
      (h : IsValue toks) (hs : IsMembers rest) :
      IsMembers (.string raw :: .mark .colon :: toks ++ .mark .comma :: rest)

end

theorem word_valid {w : List Char} (h : w ∈ ["null".toList, "true".toList, "false".toList]) :
    (Token.word w).Valid := by
  have hall : ∀ w ∈ ["null".toList, "true".toList, "false".toList],
      w ≠ [] ∧ w.all isWordChar = true := by decide
  exact ⟨(hall w h).1, List.all_eq_true.mp (hall w h).2⟩

theorem stringUnits_isSome_body {raw : List Char} (h : (stringUnits raw).isSome = true) :
    StringBody raw := by
  obtain ⟨units, hunits⟩ := Option.isSome_iff_exists.mp h
  exact stringUnits_body hunits

theorem unescape_isSome {raw s : List Char} (h : unescape raw = some s) :
    (stringUnits raw).isSome = true := by
  obtain ⟨units, hunits, _⟩ := Option.bind_eq_some_iff.mp h
  rw [hunits]
  rfl

mutual

/-- **The tokens of the grammar are orderly.** -/
theorem IsValue.orderly {toks : List Token} : IsValue toks → Orderly toks
  | .word h => orderly_word (word_valid h)
  | .number h => orderly_word (isNumber_valid h)
  | .string h => orderly_singleton rfl (fun he => by cases he) (stringUnits_isSome_body h)
  | .emptyArray => orderly_empty rfl (by decide) (by decide)
  | .array h => h.orderly.wrap rfl (by decide) (by decide)
  | .emptyObject => orderly_empty rfl (by decide) (by decide)
  | .object h => h.orderly.wrap rfl (by decide) (by decide)

theorem IsItems.orderly {toks : List Token} : IsItems toks → Orderly toks
  | .one h => h.orderly
  | .more h hs => h.orderly.comma hs.orderly

theorem IsMembers.orderly {toks : List Token} : IsMembers toks → Orderly toks
  | .one hk h => h.orderly.member (stringUnits_isSome_body hk)
  | .more hk h hs => (h.orderly.member (stringUnits_isSome_body hk)).comma hs.orderly

end

mutual

/-- The tokens of a value are of the grammar. -/
theorem Spells.isValue {v : JsonValue} {toks : List Token} (h : Spells v toks) : IsValue toks := by
  cases h with
  | null => exact .word (by decide)
  | true => exact .word (by decide)
  | false => exact .word (by decide)
  | number h => exact .number h
  | string h => exact .string (unescape_isSome h)
  | emptyArray => exact .emptyArray
  | array h => exact .array h.isItems
  | emptyObject => exact .emptyObject
  | object h => exact .object h.isMembers

theorem SpellsItems.isItems {vs : List JsonValue} {toks : List Token} (h : SpellsItems vs toks) :
    IsItems toks := by
  cases h with
  | one h => exact .one h.isValue
  | more h hs => exact .more h.isValue hs.isItems

theorem SpellsMembers.isMembers {vs : List (List Char × JsonValue)} {toks : List Token}
    (h : SpellsMembers vs toks) : IsMembers toks := by
  cases h with
  | one hk h => exact .one (unescape_isSome hk) h.isValue
  | more hk h hs => exact .more (unescape_isSome hk) h.isValue hs.isMembers

end

/-- **The tokens of a value are orderly.** -/
theorem Spells.orderly {v : JsonValue} {toks : List Token} (h : Spells v toks) : Orderly toks :=
  h.isValue.orderly

/-! ## 5. The scanner -/

/-- Where the scanner stands. -/
inductive Mode where
  | between
  | word (text : List Char)
  | string (raw : List Char) (escaped : Bool)
  deriving DecidableEq, Repr

/-- The tokens read, and where the scanner stands. -/
structure Scanned where
  done : List Token
  mode : Mode
  deriving DecidableEq, Repr

namespace Scanned

/-- A character between tokens. -/
def start (done : List Token) (c : Char) : Option Scanned :=
  if isSpace c then some ⟨done, .between⟩
  else if c = '"' then some ⟨done, .string [] false⟩
  else if isWordChar c then some ⟨done, .word [c]⟩
  else (markOf c).map fun m => ⟨done ++ [.mark m], .between⟩

def step (s : Scanned) (c : Char) : Option Scanned :=
  match s.mode with
  | .between => start s.done c
  | .word w =>
    if isWordChar c then some ⟨s.done, .word (w ++ [c])⟩ else start (s.done ++ [.word w]) c
  | .string raw true => some ⟨s.done, .string (raw ++ [c]) false⟩
  | .string raw false =>
    if c = '"' then some ⟨s.done ++ [.string raw], .between⟩
    else some ⟨s.done, .string (raw ++ [c]) (c = '\\')⟩

def finish (s : Scanned) : Option (List Token) :=
  match s.mode with
  | .between => some s.done
  | .word w => some (s.done ++ [.word w])
  | .string _ _ => none

end Scanned

/-- The tokens of a text. -/
def lex (text : List Char) : Option (List Token) :=
  (text.foldlM Scanned.step ⟨[], .between⟩).bind Scanned.finish

/-- **A text that parses to a value.** -/
def Parses (text : List Char) (v : JsonValue) : Prop := ∃ toks, lex text = some toks ∧ Spells v toks

/-! ### The tokens of a text that is given by its tokens -/

/-- The tokens are read, the last of them perhaps to its end only. -/
inductive Pending (done : List Token) : Scanned → Prop
  | between : Pending done ⟨done, .between⟩
  | word {before : List Token} {w : List Char} (h : done = before ++ [.word w]) :
      Pending done ⟨before, .word w⟩

theorem Pending.finish {done : List Token} {s : Scanned} (h : Pending done s) :
    s.finish = some done := by
  cases h with
  | between => rfl
  | word h => exact congrArg some h.symm

/-- What is no word goes on as between tokens. -/
theorem Pending.step {done : List Token} {s : Scanned} (h : Pending done s) {c : Char}
    (hc : isWordChar c = false) : s.step c = Scanned.start done c := by
  cases h with
  | between => rfl
  | word h =>
    unfold Scanned.step
    dsimp only
    rw [if_neg (Bool.eq_false_iff.mp hc), h]

theorem isSpace_not_word {c : Char} (h : isSpace c = true) : isWordChar c = false := by
  unfold isSpace at h
  simp only [Bool.or_eq_true, decide_eq_true_eq] at h
  rcases h with ((rfl | rfl) | rfl) | rfl <;> decide

theorem Pending.space {done : List Token} {s : Scanned} (h : Pending done s) {c : Char}
    (hc : isSpace c = true) : s.step c = some ⟨done, .between⟩ := by
  rw [h.step (isSpace_not_word hc), Scanned.start, if_pos hc]

theorem Scanned.foldlM_cons {s s' : Scanned} {c : Char} {text : List Char}
    (h : s.step c = some s') :
    (c :: text).foldlM Scanned.step s = text.foldlM Scanned.step s' := by
  rw [List.foldlM_cons, h]
  rfl

/-- Spaces are passed over. -/
theorem Pending.spaces {done : List Token} {s : Scanned} (h : Pending done s) {gap : List Char}
    (hg : ∀ c ∈ gap, isSpace c = true) :
    ∃ s', gap.foldlM Scanned.step s = some s' ∧ Pending done s' ∧
      (s' = s ∨ s' = ⟨done, .between⟩) := by
  induction gap generalizing s with
  | nil => exact ⟨s, rfl, h, .inl rfl⟩
  | cons c gap ih =>
    obtain ⟨s', hs', hp, hor⟩ := ih .between fun x hx => hg x (List.mem_cons_of_mem _ hx)
    refine ⟨s', ?_, hp, .inr (hor.elim id id)⟩
    rw [Scanned.foldlM_cons (h.space (hg c List.mem_cons_self))]
    exact hs'

theorem Scanned.word_foldl {done : List Token} {w v : List Char}
    (hv : ∀ c ∈ v, isWordChar c = true) :
    v.foldlM Scanned.step ⟨done, .word w⟩ = some ⟨done, .word (w ++ v)⟩ := by
  induction v generalizing w with
  | nil =>
    rw [List.append_nil]
    rfl
  | cons c v ih =>
    have hstep : Scanned.step ⟨done, .word w⟩ c = some ⟨done, .word (w ++ [c])⟩ :=
      if_pos (hv c List.mem_cons_self)
    rw [Scanned.foldlM_cons hstep, ih fun x hx => hv x (List.mem_cons_of_mem _ hx),
      List.append_assoc]
    rfl

theorem Scanned.string_foldl {done : List Token} {raw body : List Char} (h : StringBody body) :
    body.foldlM Scanned.step ⟨done, .string raw false⟩ =
      some ⟨done, .string (raw ++ body) false⟩ := by
  induction h generalizing raw with
  | nil =>
    rw [List.append_nil]
    rfl
  | plain hq hb _ ih =>
    rename_i c rest _
    have hstep : Scanned.step ⟨done, .string raw false⟩ c =
        some ⟨done, .string (raw ++ [c]) false⟩ := by
      unfold Scanned.step
      dsimp only
      rw [if_neg hq, decide_eq_false hb]
    rw [Scanned.foldlM_cons hstep, ih, List.append_assoc]
    rfl
  | escape _ ih =>
    rename_i c rest _
    have hstep : Scanned.step ⟨done, .string raw false⟩ '\\' =
        some ⟨done, .string (raw ++ ['\\']) true⟩ := rfl
    have hstep' : Scanned.step ⟨done, .string (raw ++ ['\\']) true⟩ c =
        some ⟨done, .string (raw ++ ['\\'] ++ [c]) false⟩ := rfl
    rw [Scanned.foldlM_cons hstep, Scanned.foldlM_cons hstep', ih, List.append_assoc,
      List.append_assoc]
    rfl

theorem markOf_char (m : Mark) : markOf m.char = some m := by
  cases m <;> decide

theorem Scanned.start_mark (done : List Token) (m : Mark) :
    start done m.char = some ⟨done ++ [.mark m], .between⟩ := by
  cases m <;> rfl

theorem Scanned.start_word (done : List Token) {c : Char} (h : isWordChar c = true) :
    start done c = some ⟨done, .word [c]⟩ := by
  have hspace : isSpace c = false :=
    Bool.eq_false_iff.mpr fun hs => absurd h (Bool.eq_false_iff.mp (isSpace_not_word hs))
  have hquote : c ≠ '"' := by
    rintro rfl
    exact absurd h (by decide)
  unfold start
  rw [if_neg (Bool.eq_false_iff.mp hspace), if_neg hquote, if_pos h]

theorem Mark.not_word (m : Mark) : isWordChar m.char = false := by
  cases m <;> decide

/-- **A token is read**; a word may not follow a word. -/
theorem Pending.token {done : List Token} {s : Scanned} (h : Pending done s) {t : Token}
    (ht : t.Valid) (hw : t.isWord = true → s = ⟨done, .between⟩) :
    ∃ s', t.text.foldlM Scanned.step s = some s' ∧ Pending (done ++ [t]) s' ∧
      (t.isWord = false → s' = ⟨done ++ [t], .between⟩) := by
  cases t with
  | mark m =>
    have hstep : s.step m.char = some ⟨done ++ [.mark m], .between⟩ := by
      rw [h.step m.not_word, Scanned.start_mark]
    exact ⟨_, Scanned.foldlM_cons hstep, .between, fun _ => rfl⟩
  | string raw =>
    refine ⟨⟨done ++ [.string raw], .between⟩, ?_, .between, fun _ => rfl⟩
    have hquote : s.step '"' = some ⟨done, .string [] false⟩ := by
      rw [h.step (by decide)]
      rfl
    have hbody : raw.foldlM Scanned.step ⟨done, .string [] false⟩ =
        some ⟨done, .string raw false⟩ := Scanned.string_foldl ht
    show List.foldlM Scanned.step s ('"' :: (raw ++ ['"'])) = _
    rw [Scanned.foldlM_cons hquote, List.foldlM_append, hbody]
    rfl
  | word w =>
    obtain rfl := hw rfl
    cases w with
    | nil => exact absurd rfl ht.1
    | cons c w =>
      refine ⟨⟨done, .word (c :: w)⟩, ?_, .word rfl, fun hf => by cases hf⟩
      have hstep : Scanned.step ⟨done, .between⟩ c = some ⟨done, .word [c]⟩ :=
        Scanned.start_word done (ht.2 c List.mem_cons_self)
      show List.foldlM Scanned.step _ (c :: w) = _
      rw [Scanned.foldlM_cons hstep]
      exact Scanned.word_foldl fun x hx => ht.2 x (List.mem_cons_of_mem _ hx)

/-- The text of tokens, each behind a gap. -/
def spaced (pieces : List (List Char × Token)) : List Char :=
  pieces.flatMap fun p => p.1 ++ p.2.text

/-- No two words side by side. -/
def Apart (t u : Token) : Prop := t.isWord = true → u.isWord = false

theorem Pending.spaced {done : List Token} {s : Scanned} (h : Pending done s)
    {pieces : List (List Char × Token)} (hg : ∀ p ∈ pieces, ∀ c ∈ p.1, isSpace c = true)
    (hv : ∀ p ∈ pieces, p.2.Valid) (hc : (pieces.map (·.2)).IsChain Apart)
    (hs : s = ⟨done, .between⟩ ∨ ∀ t ∈ (pieces.map (·.2)).head?, t.isWord = false) :
    ∃ s', (Json.spaced pieces).foldlM Scanned.step s = some s' ∧
      Pending (done ++ pieces.map (·.2)) s' := by
  induction pieces generalizing done s with
  | nil => exact ⟨s, rfl, by rw [List.map_nil, List.append_nil]; exact h⟩
  | cons p pieces ih =>
    obtain ⟨gap, t⟩ := p
    obtain ⟨s₁, h₁, hp₁, hor⟩ := h.spaces (hg _ List.mem_cons_self)
    have hword : t.isWord = true → s₁ = ⟨done, .between⟩ := by
      intro hw
      rcases hs with rfl | hs
      · exact hor.elim id id
      · rw [hs t rfl] at hw
        cases hw
    obtain ⟨s₂, h₂, hp₂, hmark⟩ := hp₁.token (hv _ List.mem_cons_self) hword
    have hnext : s₂ = ⟨done ++ [t], .between⟩ ∨
        ∀ u ∈ (pieces.map (·.2)).head?, u.isWord = false := by
      cases hw : t.isWord with
      | false => exact .inl (hmark hw)
      | true => exact .inr fun u hu => hc.rel_head? hu hw
    obtain ⟨s₃, h₃, hp₃⟩ := ih hp₂ (fun p hp => hg p (List.mem_cons_of_mem _ hp))
      (fun p hp => hv p (List.mem_cons_of_mem _ hp)) hc.tail hnext
    refine ⟨s₃, ?_, ?_⟩
    · show List.foldlM Scanned.step s (gap ++ t.text ++ Json.spaced pieces) = _
      rw [List.foldlM_append, List.foldlM_append, h₁]
      show ((List.foldlM Scanned.step s₁ t.text).bind _) = _
      rw [h₂]
      exact h₃
    · rw [List.append_assoc] at hp₃
      exact hp₃

/-- **The tokens of a text** whose gaps are spaces and that has no two words side by side. -/
theorem lex_spaced {pieces : List (List Char × Token)} {gap : List Char}
    (hg : ∀ p ∈ pieces, ∀ c ∈ p.1, isSpace c = true) (hgap : ∀ c ∈ gap, isSpace c = true)
    (hv : ∀ p ∈ pieces, p.2.Valid) (hc : (pieces.map (·.2)).IsChain Apart) :
    lex (spaced pieces ++ gap) = some (pieces.map (·.2)) := by
  obtain ⟨s, hs, hp⟩ := (Pending.between : Pending [] ⟨[], .between⟩).spaced hg hv hc (.inl rfl)
  obtain ⟨s', hs', hp', _⟩ := hp.spaces hgap
  unfold lex
  rw [List.foldlM_append, hs]
  show ((List.foldlM Scanned.step s gap).bind Scanned.finish) = _
  rw [hs']
  exact hp'.finish

/-! ### The text of tokens that were read -/

/-- What has been read, up to where the scanner stands: tokens behind gaps, and the part of one
    more token. -/
def Scanned.Reads (p : List Char) (s : Scanned) : Prop :=
  ∃ pieces gap, pieces.map (·.2) = s.done ∧ (∀ x ∈ pieces, ∀ c ∈ x.1, isSpace c = true) ∧
    (∀ c ∈ gap, isSpace c = true) ∧ p = spaced pieces ++ gap ++
      match s.mode with
      | .between => []
      | .word w => w
      | .string raw _ => '"' :: raw

theorem markOf_some {c : Char} {m : Mark} (h : markOf c = some m) : m.char = c := by
  by_cases hc : ∃ n : Mark, n.char = c
  · obtain ⟨n, rfl⟩ := hc
    rw [markOf_char] at h
    rw [Option.some.inj h]
  · exfalso
    have hne (n : Mark) : c ≠ n.char := fun hn => hc ⟨n, hn.symm⟩
    have hbrace : c ≠ '{' ∧ c ≠ '}' := ⟨hne .openBrace, hne .closeBrace⟩
    have hbracket : c ≠ '[' ∧ c ≠ ']' := ⟨hne .openBracket, hne .closeBracket⟩
    have hrest : c ≠ ':' ∧ c ≠ ',' := ⟨hne .colon, hne .comma⟩
    simp [markOf, hbrace, hbracket, hrest] at h

/-- One more token behind its gap. -/
theorem Scanned.Reads.token {p gap : List Char} {pieces : List (List Char × Token)} {t : Token}
    (hp : ∀ x ∈ pieces, ∀ c ∈ x.1, isSpace c = true) (hg : ∀ c ∈ gap, isSpace c = true)
    (h : p = spaced pieces ++ gap ++ t.text) :
    Scanned.Reads p ⟨pieces.map (·.2) ++ [t], .between⟩ := by
  refine ⟨pieces ++ [(gap, t)], [], by simp, ?_, by simp, ?_⟩
  · intro x hx
    rcases List.mem_append.mp hx with hx | hx
    · exact hp x hx
    · rw [List.mem_singleton.mp hx]
      exact hg
  · rw [h]
    simp [spaced]

theorem Scanned.Reads.start {p : List Char} {done : List Token} {c : Char} {s : Scanned}
    (h : Scanned.Reads p ⟨done, .between⟩) (hs : Scanned.start done c = some s) :
    Scanned.Reads (p ++ [c]) s := by
  obtain ⟨pieces, gap, hdone, hp, hg, rfl⟩ := h
  obtain rfl := hdone
  unfold Scanned.start at hs
  split at hs
  · rename_i hspace
    obtain rfl := Option.some.inj hs
    refine ⟨pieces, gap ++ [c], rfl, hp, ?_, by simp⟩
    intro x hx
    rcases List.mem_append.mp hx with hx | hx
    · exact hg x hx
    · rw [List.mem_singleton.mp hx]
      exact hspace
  · split at hs
    · rename_i hquote
      obtain rfl := Option.some.inj hs
      exact ⟨pieces, gap, rfl, hp, hg, by simp [hquote]⟩
    · split at hs
      · obtain rfl := Option.some.inj hs
        exact ⟨pieces, gap, rfl, hp, hg, by simp⟩
      · obtain ⟨m, hm, rfl⟩ := Option.map_eq_some_iff.mp hs
        exact Scanned.Reads.token hp hg (by simp [Token.text, markOf_some hm])

theorem Scanned.Reads.step {p : List Char} {s s' : Scanned} {c : Char} (h : s.Reads p)
    (hs : s.step c = some s') : s'.Reads (p ++ [c]) := by
  obtain ⟨done, mode⟩ := s
  cases mode with
  | between => exact h.start hs
  | word w =>
    obtain ⟨pieces, gap, hdone, hp, hg, rfl⟩ := h
    obtain rfl := hdone
    simp only [Scanned.step] at hs
    split at hs
    · obtain rfl := Option.some.inj hs
      exact ⟨pieces, gap, rfl, hp, hg, by simp⟩
    · exact (Scanned.Reads.token (t := .word w) hp hg rfl).start hs
  | string raw escaped =>
    obtain ⟨pieces, gap, hdone, hp, hg, rfl⟩ := h
    obtain rfl := hdone
    cases escaped with
    | true =>
      obtain rfl := Option.some.inj hs
      exact ⟨pieces, gap, rfl, hp, hg, by simp⟩
    | false =>
      simp only [Scanned.step] at hs
      split at hs
      · rename_i hquote
        obtain rfl := Option.some.inj hs
        exact Scanned.Reads.token hp hg (by simp [Token.text, hquote])
      · obtain rfl := Option.some.inj hs
        exact ⟨pieces, gap, rfl, hp, hg, by simp⟩

theorem Scanned.Reads.foldlM {p text : List Char} {s s' : Scanned} (h : s.Reads p)
    (hs : text.foldlM Scanned.step s = some s') : s'.Reads (p ++ text) := by
  induction text generalizing p s with
  | nil =>
    obtain rfl := Option.some.inj hs
    rw [List.append_nil]
    exact h
  | cons c text ih =>
    obtain ⟨s₁, h₁, hrest⟩ := Option.bind_eq_some_iff.mp hs
    have hread := ih (h.step h₁) hrest
    rw [List.append_assoc] at hread
    exact hread

/-- **A text that is read** is made of its tokens, with spaces before them and at the end. -/
theorem spaced_of_lex {text : List Char} {toks : List Token} (h : lex text = some toks) :
    ∃ pieces gap, pieces.map (·.2) = toks ∧ (∀ x ∈ pieces, ∀ c ∈ x.1, isSpace c = true) ∧
      (∀ c ∈ gap, isSpace c = true) ∧ text = spaced pieces ++ gap := by
  obtain ⟨s, hs, hfinish⟩ := Option.bind_eq_some_iff.mp h
  have hempty : Scanned.Reads [] ⟨[], .between⟩ :=
    ⟨[], [], rfl, by simp, by simp, rfl⟩
  have hread := hempty.foldlM hs
  rw [List.nil_append] at hread
  obtain ⟨done, mode⟩ := s
  cases mode with
  | between =>
    obtain ⟨pieces, gap, hdone, hp, hg, htext⟩ := hread
    obtain rfl := Option.some.inj hfinish
    exact ⟨pieces, gap, hdone, hp, hg, by simpa using htext⟩
  | word w =>
    obtain ⟨pieces, gap, hdone, hp, hg, htext⟩ := hread
    obtain rfl := hdone
    obtain ⟨pieces', gap', hdone', hp', hg', htext'⟩ : Scanned.Reads text _ :=
      Scanned.Reads.token (t := .word w) hp hg htext
    obtain rfl := Option.some.inj hfinish
    exact ⟨pieces', gap', hdone', hp', hg', by simpa using htext'⟩
  | string raw escaped => cases hfinish

end Irez.Basis.Json
