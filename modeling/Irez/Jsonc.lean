/-
  File:      Irez/Jsonc.lean
  Subject:   `jsonc_to_json` (mcp/src/install.rs 379-443).

  The scanner of the installer drops comments and trailing commas. A comma is trailing where
  only whitespace lies between it and a closing bracket or brace, in the input as it stands.

  * `jsoncToJson` -- the scanner;
  * `Rendering` -- a JSON text with comments and trailing commas in its gaps;
  * `scan_rendering` -- what the scanner makes of a rendering, piece by piece;
  * `jsonc_preserves` -- the value is kept exactly where no comment follows a trailing comma;
  * `AfterComma` -- a comment between a trailing comma and its bracket.
-/
import Irez.Basis.Json

open Irez.Basis.Json

namespace Irez

/-! ## 1. The scanner -/

/-- `char::is_whitespace`. -/
def isWhitespace (c : Char) : Bool :=
  ('\t' ≤ c && c ≤ '\r') || c = ' ' || c = '\u0085' || c = '\u00a0' || c = '\u1680' ||
    ('\u2000' ≤ c && c ≤ '\u200a') || c = '\u2028' || c = '\u2029' || c = '\u202f' ||
    c = '\u205f' || c = '\u3000'

/-- The loop over a line comment: what is left at its end. -/
def skipLine (chars : List Char) : List Char := chars.dropWhile (· ≠ '\n')

/-- The loop over a block comment: the newlines it pushes, and what is left. -/
def skipBlock : List Char → List Char × List Char
  | c :: d :: rest =>
    if c = '*' && d = '/' then ([], rest)
    else
      let (newlines, left) := skipBlock (d :: rest)
      (if c = '\n' then '\n' :: newlines else newlines, left)
  | _ => ([], [])

/-- The first character after whitespace is a closing brace or bracket. -/
def closerFollows (chars : List Char) : Bool :=
  match (chars.dropWhile isWhitespace).head? with
  | some c => c = '}' || c = ']'
  | none => false

theorem skipBlock_length (chars : List Char) : (skipBlock chars).2.length ≤ chars.length := by
  fun_induction skipBlock chars with
  | case1 c d rest h =>
    simp only [List.length_cons]
    omega
  | case2 c d rest h newlines left heq ih =>
    rw [heq] at ih
    simp only [List.length_cons] at ih ⊢
    omega
  | case3 => simp

theorem skipLine_length (chars : List Char) : (skipLine chars).length ≤ chars.length :=
  (List.dropWhile_sublist _).length_le

/-- The main loop, from the characters that are left. -/
def scan (inString : Bool) (chars : List Char) : List Char :=
  match chars with
  | [] => []
  | c :: rest =>
    if inString then
      if c = '\\' then
        match rest with
        | d :: rest' => c :: d :: scan true rest'
        | [] => [c]
      else c :: scan (c ≠ '"') rest
    else if c = '"' then c :: scan true rest
    else if c = '/' && rest.head? = some '/' then scan false (skipLine rest)
    else if c = '/' && rest.head? = some '*' then
      (skipBlock rest.tail).1 ++ scan false (skipBlock rest.tail).2
    else if c = ',' then
      if closerFollows rest then scan false rest else c :: scan false rest
    else c :: scan false rest
  termination_by chars.length
  decreasing_by
    all_goals simp only [List.length_cons]
    all_goals first
      | omega
      | exact Nat.lt_succ_of_le (skipLine_length _)
      | exact Nat.lt_succ_of_le (Nat.le_trans (skipBlock_length _) (by simp))

def jsoncToJson (input : List Char) : List Char := scan false input

/-! ## 2. Renderings -/

/-- A piece of a gap between tokens. -/
inductive Trivia where
  | space (c : Char) (h : isSpace c = true)
  | line (text : List Char) (h : '\n' ∉ text)
  | block (text : List Char) (h : ¬ ['*', '/'] <:+: text)

def Trivia.text : Trivia → List Char
  | .space c _ => [c]
  | .line text _ => '/' :: '/' :: text ++ ['\n']
  | .block text _ => '/' :: '*' :: text ++ ['*', '/']

def Trivia.isComment : Trivia → Bool
  | .space _ _ => false
  | _ => true

/-- What the scanner leaves of a piece of a gap. -/
def Trivia.stripped : Trivia → List Char
  | .space c _ => [c]
  | .line _ _ => ['\n']
  | .block text _ => text.filter (· = '\n')

def gapText (gap : List Trivia) : List Char := gap.flatMap Trivia.text

def gapStripped (gap : List Trivia) : List Char := gap.flatMap Trivia.stripped

/-- A gap without comments. -/
def blank (gap : List Trivia) : Bool := gap.all (!·.isComment)

/-- A token behind a gap; before a closing mark there may be a comma and another gap. -/
structure Piece where
  gap : List Trivia
  trailing : Option (List Trivia)
  token : Token
  closes : trailing.isSome = true → token.closes = true

namespace Piece

def text (p : Piece) : List Char :=
  gapText p.gap ++ p.trailing.elim [] (fun gap => ',' :: gapText gap) ++ p.token.text

end Piece

/-- **A JSON text with comments and trailing commas**: pieces, a gap at the end, and perhaps a
    line comment that the end of the input ends. -/
structure Rendering where
  pieces : List Piece
  gap : List Trivia
  tail : Option (List Char)
  tail_line : ∀ text, tail = some text → '\n' ∉ text

theorem tailless (text : List Char) (h : (none : Option (List Char)) = some text) :
    '\n' ∉ text := by cases h

namespace Rendering

def text (r : Rendering) : List Char :=
  r.pieces.flatMap Piece.text ++ gapText r.gap ++ r.tail.elim [] (fun text => '/' :: '/' :: text)

def tokens (r : Rendering) : List Token := r.pieces.map (·.token)

/-- A rendering of a value. -/
def Renders (r : Rendering) (v : JsonValue) : Prop := Spells v r.tokens

end Rendering

/-! ## 3. What the scanner makes of the pieces -/

theorem scan_plain {c : Char} {rest : List Char} (h : c ≠ '"' ∧ c ≠ '/' ∧ c ≠ ',') :
    scan false (c :: rest) = c :: scan false rest := by
  rw [scan.eq_def]
  simp [h.1, h.2.1, h.2.2]

theorem scan_comma {rest : List Char} :
    scan false (',' :: rest) = if closerFollows rest then scan false rest
      else ',' :: scan false rest := by
  rw [scan.eq_def]
  simp

theorem skipLine_append {text rest : List Char} (h : '\n' ∉ text) :
    skipLine (text ++ rest) = skipLine rest := by
  refine List.dropWhile_append_of_pos fun c hc => decide_eq_true ?_
  rintro rfl
  exact h hc

theorem scan_line {text rest : List Char} (h : '\n' ∉ text) :
    scan false ('/' :: '/' :: (text ++ rest)) = scan false (skipLine rest) := by
  have hslash : '\n' ∉ '/' :: text := by simpa using h
  have hskip : skipLine ('/' :: text ++ rest) = skipLine rest := skipLine_append hslash
  rw [scan.eq_def]
  simpa using congrArg (scan false) hskip

/-- A block comment ends where its text ends. -/
theorem skipBlock_block {text rest : List Char} (h : ¬ ['*', '/'] <:+: text) :
    skipBlock (text ++ '*' :: '/' :: rest) = (text.filter (· = '\n'), rest) := by
  induction text with
  | nil => rfl
  | cons c text ih =>
    have ih := ih fun hi => h (hi.trans (List.infix_cons_iff.mpr (.inr List.infix_rfl)))
    -- what follows `c` is no end of the comment
    have hopen : ∀ d rest', text ++ '*' :: '/' :: rest = d :: rest' → ¬ (c = '*' ∧ d = '/') := by
      rintro d rest' heq ⟨rfl, rfl⟩
      cases text with
      | nil => simp at heq
      | cons e text =>
        rw [List.cons_append] at heq
        obtain ⟨rfl, _⟩ := List.cons.inj heq
        exact h ⟨[], text, rfl⟩
    rw [List.cons_append]
    cases hrest : text ++ '*' :: '/' :: rest with
    | nil => simp at hrest
    | cons d rest' =>
      rw [skipBlock, if_neg (by simpa using hopen d rest' hrest), ← hrest, ih]
      by_cases hc : c = '\n'
      · simp [hc]
      · simp [hc]

theorem scan_block {text rest : List Char} (h : ¬ ['*', '/'] <:+: text) :
    scan false ('/' :: '*' :: (text ++ '*' :: '/' :: rest)) =
      text.filter (· = '\n') ++ scan false rest := by
  rw [scan.eq_def]
  simp [skipBlock_block h]

/-- A string is copied up to its last quote. -/
theorem scan_string {raw rest : List Char} (h : StringBody raw) :
    scan true (raw ++ '"' :: rest) = raw ++ '"' :: scan false rest := by
  induction h with
  | nil =>
    rw [List.nil_append, scan.eq_def]
    simp
  | plain hq hb _ ih =>
    rw [List.cons_append, scan.eq_def]
    simp [hq, hb, ih]
  | escape _ ih =>
    rw [List.cons_append, List.cons_append, scan.eq_def]
    simp [ih]

/-- A word is copied. -/
theorem scan_word {w rest : List Char} (h : ∀ c ∈ w, isWordChar c = true) :
    scan false (w ++ rest) = w ++ scan false rest := by
  induction w with
  | nil => rfl
  | cons c w ih =>
    have hc := h c List.mem_cons_self
    have hplain : c ≠ '"' ∧ c ≠ '/' ∧ c ≠ ',' := by
      refine ⟨?_, ?_, ?_⟩
      all_goals
        rintro rfl
        exact absurd hc (by decide)
    rw [List.cons_append, scan_plain hplain, ih fun x hx => h x (List.mem_cons_of_mem _ hx)]
    rfl

/-- **A token is copied**, if it is no comma. -/
theorem scan_token {t : Token} (ht : t.Valid) (hc : t ≠ .mark .comma) {rest : List Char} :
    scan false (t.text ++ rest) = t.text ++ scan false rest := by
  cases t with
  | mark m =>
    have hplain : m.char ≠ '"' ∧ m.char ≠ '/' ∧ m.char ≠ ',' := by
      cases m with
      | comma => exact absurd rfl hc
      | _ => decide
    exact scan_plain hplain
  | string raw =>
    have hquote : ∀ text, scan false ('"' :: text) = '"' :: scan true text := by
      intro text
      rw [scan.eq_def]
      simp
    show scan false ('"' :: ((raw ++ ['"']) ++ rest)) = _
    rw [hquote, List.append_assoc]
    show '"' :: scan true (raw ++ '"' :: rest) = _
    rw [scan_string ht]
    simp [Token.text]
  | word w => exact scan_word ht.2

theorem space_plain {c : Char} (h : isSpace c = true) : c ≠ '"' ∧ c ≠ '/' ∧ c ≠ ',' := by
  refine ⟨?_, ?_, ?_⟩
  all_goals
    rintro rfl
    exact absurd h (by decide)

/-- **A gap is stripped.** -/
theorem scan_gap {gap : List Trivia} {rest : List Char} :
    scan false (gapText gap ++ rest) = gapStripped gap ++ scan false rest := by
  induction gap with
  | nil => rfl
  | cons x gap ih =>
    show scan false (x.text ++ gapText gap ++ rest) = x.stripped ++ gapStripped gap ++ _
    rw [List.append_assoc, List.append_assoc, ← ih]
    cases x with
    | space c h => exact scan_plain (space_plain h)
    | line text h =>
      show scan false ('/' :: '/' :: ((text ++ ['\n']) ++ (gapText gap ++ rest))) = _
      have hnewline : ∀ text, skipLine ('\n' :: text) = '\n' :: text := fun _ => rfl
      rw [List.append_assoc, scan_line h]
      show scan false (skipLine ('\n' :: (gapText gap ++ rest))) = _
      rw [hnewline]
      exact scan_plain ⟨by decide, by decide, by decide⟩
    | block text h =>
      show scan false ('/' :: '*' :: ((text ++ ['*', '/']) ++ (gapText gap ++ rest))) = _
      rw [List.append_assoc]
      exact scan_block h

/-- A line comment at the end of the input leaves nothing. -/
theorem scan_tail {text : List Char} (h : '\n' ∉ text) : scan false ('/' :: '/' :: text) = [] := by
  have hline : scan false ('/' :: '/' :: (text ++ [])) = scan false (skipLine []) := scan_line h
  rw [List.append_nil] at hline
  rw [hline, skipLine, List.dropWhile_nil, scan.eq_def]

/-! ### Commas -/

theorem isSpace_isWhitespace {c : Char} (h : isSpace c = true) : isWhitespace c = true := by
  unfold isSpace at h
  simp only [Bool.or_eq_true, decide_eq_true_eq] at h
  rcases h with ((rfl | rfl) | rfl) | rfl <;> decide

/-- Words are of characters between `+` and `z`. -/
theorem isWordChar_range {c : Char} (h : isWordChar c = true) : '+' ≤ c ∧ c ≤ 'z' := by
  have hrange : ∀ {a b : Char}, a ≤ c → c ≤ b → '+' ≤ a → b ≤ 'z' → '+' ≤ c ∧ c ≤ 'z' :=
    fun h₁ h₂ h₃ h₄ => ⟨Char.le_trans h₃ h₁, Char.le_trans h₂ h₄⟩
  unfold isWordChar Char.isDigit at h
  simp only [Bool.or_eq_true, Bool.and_eq_true, decide_eq_true_eq, ge_iff_le] at h
  rcases h with ((((h | rfl) | rfl) | rfl) | h) | h
  · exact hrange h.1 h.2 (by decide) (by decide)
  · decide
  · decide
  · decide
  · exact hrange h.1 h.2 (by decide) (by decide)
  · exact hrange h.1 h.2 (by decide) (by decide)

theorem isWordChar_not_whitespace {c : Char} (h : isWordChar c = true) : isWhitespace c = false := by
  obtain ⟨hlow, hhigh⟩ := isWordChar_range h
  have hne : ∀ x : Char, (x < '+' ∨ 'z' < x) → c ≠ x := by
    rintro x (hx | hx) rfl
    · exact absurd hlow (Char.not_le.mpr hx)
    · exact absurd hhigh (Char.not_le.mpr hx)
  have hlow' : ¬ c ≤ '\r' := fun hc =>
    absurd (Char.le_trans hlow hc) (by decide)
  have hhigh' : ¬ '\u2000' ≤ c := fun hc =>
    absurd (Char.le_trans hc hhigh) (by decide)
  unfold isWhitespace
  simp [hlow', hhigh', hne ' ' (by decide), hne '\u0085' (by decide), hne '\u00a0' (by decide),
    hne '\u1680' (by decide), hne '\u2028' (by decide), hne '\u2029' (by decide),
    hne '\u202f' (by decide), hne '\u205f' (by decide), hne '\u3000' (by decide)]

/-- **The first character of a token** is no whitespace, and closes where the token does. -/
theorem Token.text_head {t : Token} (ht : t.Valid) : ∃ c cs, t.text = c :: cs ∧
    isWhitespace c = false ∧ (decide (c = '}') || decide (c = ']')) = t.closes := by
  cases t with
  | mark m =>
    refine ⟨m.char, [], rfl, ?_, ?_⟩
    · cases m <;> decide
    · cases m <;> rfl
  | string raw => exact ⟨'"', raw ++ ['"'], rfl, by decide, rfl⟩
  | word w =>
    cases w with
    | nil => exact absurd rfl ht.1
    | cons c w =>
      have hc := ht.2 c List.mem_cons_self
      refine ⟨c, w, rfl, isWordChar_not_whitespace hc, ?_⟩
      have hbrace : c ≠ '}' := by
        rintro rfl
        exact absurd hc (by decide)
      have hbracket : c ≠ ']' := by
        rintro rfl
        exact absurd hc (by decide)
      simp [hbrace, hbracket, Token.closes]

/-- The lookahead from a gap stops at its first comment. -/
theorem closerFollows_gap {gap : List Trivia} {t : Token} (ht : t.Valid) {rest : List Char} :
    closerFollows (gapText gap ++ (t.text ++ rest)) = (blank gap && t.closes) := by
  induction gap with
  | nil =>
    obtain ⟨c, cs, htext, hspace, hcloses⟩ := Token.text_head ht
    show closerFollows (t.text ++ rest) = t.closes
    rw [htext, ← hcloses]
    unfold closerFollows
    rw [List.cons_append, List.dropWhile_cons_of_neg (by simpa using hspace)]
    rfl
  | cons x gap ih =>
    show closerFollows (x.text ++ gapText gap ++ _) = _
    rw [List.append_assoc]
    cases x with
    | space c h =>
      have hpass : closerFollows (c :: (gapText gap ++ (t.text ++ rest))) =
          closerFollows (gapText gap ++ (t.text ++ rest)) := by
        unfold closerFollows
        rw [List.dropWhile_cons_of_pos (isSpace_isWhitespace h)]
      exact hpass.trans ih
    | line text h => rfl
    | block text h => rfl

/-! ## 4. What the scanner makes of a rendering -/

/-- What is left of a piece. -/
def Piece.stripped (p : Piece) : List Char :=
  gapStripped p.gap ++ p.trailing.elim []
    (fun gap => (if blank gap then [] else [',']) ++ gapStripped gap) ++ p.token.text

theorem Piece.trailing_none {p : Piece} (h : p.token.closes = false) : p.trailing = none := by
  cases ht : p.trailing with
  | none => rfl
  | some gap =>
    have hcloses := p.closes (by rw [ht]; rfl)
    rw [h] at hcloses
    cases hcloses

/-- A piece whose token is no comma. -/
theorem scan_piece {p : Piece} (hv : p.token.Valid) (hc : p.token ≠ .mark .comma)
    {rest : List Char} : scan false (p.text ++ rest) = p.stripped ++ scan false rest := by
  unfold Piece.text Piece.stripped
  rw [List.append_assoc, List.append_assoc, scan_gap, List.append_assoc, List.append_assoc]
  congr 1
  cases ht : p.trailing with
  | none => exact scan_token hv hc
  | some gap =>
    have hcloses : p.token.closes = true := p.closes (by rw [ht]; rfl)
    show scan false (',' :: gapText gap ++ (p.token.text ++ rest)) = _
    rw [List.cons_append, scan_comma, closerFollows_gap hv, hcloses, Bool.and_true, scan_gap,
      scan_token hv hc]
    cases hb : blank gap with
    | true => simp [hb]
    | false => simp [hb]

/-- A separating comma is kept. -/
theorem scan_separator {p q : Piece} (hp : p.token = .mark .comma) (hv : q.token.Valid)
    (hq : q.token.closes = false) {rest : List Char} :
    scan false (p.text ++ (q.text ++ rest)) = p.stripped ++ scan false (q.text ++ rest) := by
  have hnext : closerFollows (q.text ++ rest) = false := by
    unfold Piece.text
    rw [Piece.trailing_none hq, Option.elim_none, List.append_nil, List.append_assoc,
      closerFollows_gap hv, hq, Bool.and_false]
  generalize q.text ++ rest = next at hnext ⊢
  unfold Piece.text Piece.stripped
  rw [Piece.trailing_none (by rw [hp]; rfl), Option.elim_none, Option.elim_none, List.append_nil,
    List.append_nil, hp, List.append_assoc, scan_gap, List.append_assoc]
  congr 1
  show scan false (',' :: next) = ',' :: scan false next
  rw [scan_comma, if_neg (Bool.eq_false_iff.mp hnext)]

/-- **The pieces of a text are stripped one by one.** -/
theorem scan_pieces {pieces : List Piece} (hv : ∀ p ∈ pieces, p.token.Valid)
    (hc : (pieces.map (·.token)).IsChain Token.Follows)
    (hl : ∀ t ∈ (pieces.map (·.token)).getLast?, t ≠ .mark .comma) {rest : List Char} :
    scan false (pieces.flatMap Piece.text ++ rest) =
      pieces.flatMap Piece.stripped ++ scan false rest := by
  induction pieces with
  | nil => rfl
  | cons p pieces ih =>
    have hvp := hv p List.mem_cons_self
    have hrest := fun q hq => hv q (List.mem_cons_of_mem p hq)
    rw [List.flatMap_cons, List.flatMap_cons, List.append_assoc, List.append_assoc]
    by_cases hp : p.token = .mark .comma
    · cases pieces with
      | nil => exact absurd hp (hl _ rfl)
      | cons q pieces =>
        have hq : q.token.closes = false := (hc.rel_head? rfl).1 hp
        have ih := ih hrest hc.tail hl
        rw [List.flatMap_cons, List.append_assoc] at ih ⊢
        rw [scan_separator hp (hrest q List.mem_cons_self) hq, ih]
    · rw [scan_piece hvp hp]
      congr 1
      cases pieces with
      | nil => rfl
      | cons q pieces => exact ih hrest hc.tail hl

/-! ## 5. The tokens that are left -/

/-- The tokens of a piece after the scanner, each with its gap. -/
def Piece.left (p : Piece) : List (List Char × Token) :=
  match p.trailing with
  | none => [(gapStripped p.gap, p.token)]
  | some gap =>
    if blank gap then [(gapStripped p.gap ++ gapStripped gap, p.token)]
    else [(gapStripped p.gap, .mark .comma), (gapStripped gap, p.token)]

theorem gapStripped_space {gap : List Trivia} : ∀ c ∈ gapStripped gap, isSpace c = true := by
  intro c hc
  obtain ⟨x, _, hc⟩ := List.mem_flatMap.mp hc
  cases x with
  | space c' h =>
    rw [List.mem_singleton.mp hc]
    exact h
  | line text h =>
    rw [List.mem_singleton.mp hc]
    decide
  | block text h =>
    rw [of_decide_eq_true (List.mem_filter.mp hc).2]
    decide

theorem Piece.stripped_eq (p : Piece) : p.stripped = spaced p.left := by
  unfold Piece.stripped Piece.left spaced
  cases p.trailing with
  | none => simp
  | some gap =>
    cases hb : blank gap with
    | true => simp [hb]
    | false => simp [hb, Token.text, Mark.char]

theorem Piece.left_space {p : Piece} : ∀ x ∈ p.left, ∀ c ∈ x.1, isSpace c = true := by
  intro x hx c hc
  unfold Piece.left at hx
  split at hx
  · rw [List.mem_singleton.mp hx] at hc
    exact gapStripped_space c hc
  · split at hx
    · rw [List.mem_singleton.mp hx] at hc
      exact (List.mem_append.mp hc).elim (gapStripped_space c) (gapStripped_space c)
    · rcases List.mem_cons.mp hx with rfl | hx
      · exact gapStripped_space c hc
      · rw [List.mem_singleton.mp hx] at hc
        exact gapStripped_space c hc

/-- The piece is left as its token, or as a comma before a closing token. -/
theorem Piece.left_tokens (p : Piece) :
    (p.left.map (·.2) = [p.token] ∧ ∀ gap, p.trailing = some gap → blank gap = true) ∨
      (p.left.map (·.2) = [.mark .comma, p.token] ∧ p.token.closes = true ∧
        ∃ gap, p.trailing = some gap ∧ blank gap = false) := by
  have hcloses := p.closes
  unfold Piece.left
  cases ht : p.trailing with
  | none => exact .inl ⟨rfl, fun gap hg => by cases hg⟩
  | some gap =>
    cases hb : blank gap with
    | true =>
      refine .inl ⟨by simp [hb], fun gap' hg => ?_⟩
      obtain rfl := Option.some.inj hg
      exact hb
    | false => exact .inr ⟨by simp [hb], hcloses (by rw [ht]; rfl), gap, rfl, hb⟩

/-- A comma put in before a closing token stands beside no word. -/
theorem left_apart {pieces : List Piece} (h : (pieces.map (·.token)).IsChain Apart) :
    ((pieces.flatMap Piece.left).map (·.2)).IsChain Apart := by
  induction pieces with
  | nil => exact .nil
  | cons p pieces ih =>
    have ih := ih h.tail
    have hnext : ∀ u ∈ ((pieces.flatMap Piece.left).map (·.2)).head?, Apart p.token u := by
      intro u hu
      cases pieces with
      | nil => cases hu
      | cons q pieces =>
        rw [List.flatMap_cons, List.map_append] at hu
        rcases q.left_tokens with ⟨hq, _⟩ | ⟨hq, _⟩
        · rw [hq] at hu
          obtain rfl := Option.some.inj hu
          exact h.rel_head? rfl
        · rw [hq] at hu
          obtain rfl := Option.some.inj hu
          exact fun _ => rfl
    rw [List.flatMap_cons, List.map_append]
    rcases p.left_tokens with ⟨hp, _⟩ | ⟨hp, _⟩
    · rw [hp]
      exact ih.cons hnext
    · rw [hp]
      refine (ih.cons hnext).cons fun u _ hw => ?_
      cases hw

namespace Rendering

/-- The tokens that the scanner leaves. -/
def left (r : Rendering) : List (List Char × Token) := r.pieces.flatMap Piece.left

theorem scan_stripped {r : Rendering} (horderly : Orderly r.tokens) :
    jsoncToJson r.text = r.pieces.flatMap Piece.stripped ++ gapStripped r.gap := by
  have hv : ∀ p ∈ r.pieces, p.token.Valid := fun p hp =>
    horderly.valid _ (List.mem_map_of_mem hp)
  have htail : scan false (r.tail.elim [] fun text => '/' :: '/' :: text) = [] := by
    cases ht : r.tail with
    | none =>
      show scan false [] = []
      rw [scan.eq_def]
    | some text => exact scan_tail (r.tail_line text ht)
  unfold jsoncToJson Rendering.text
  rw [List.append_assoc, scan_pieces hv horderly.chain horderly.last, scan_gap, htail,
    List.append_nil]

theorem scan_text {r : Rendering} {v : JsonValue} (h : r.Renders v) :
    jsoncToJson r.text = spaced r.left ++ gapStripped r.gap := by
  have hspaced : r.pieces.flatMap Piece.stripped = spaced r.left := by
    unfold spaced Rendering.left
    rw [List.flatMap_assoc]
    exact List.flatMap_congr fun p _ => p.stripped_eq
  rw [r.scan_stripped (Spells.orderly h), hspaced]

/-- **What is left is read** token by token. -/
theorem lex_left {r : Rendering} {v : JsonValue} (h : r.Renders v) :
    lex (jsoncToJson r.text) = some (r.left.map (·.2)) := by
  have horderly := Spells.orderly h
  rw [r.scan_text h]
  refine lex_spaced ?_ gapStripped_space ?_ ?_
  · intro x hx
    obtain ⟨p, _, hx⟩ := List.mem_flatMap.mp hx
    exact Piece.left_space x hx
  · intro x hx
    obtain ⟨p, hp, hx⟩ := List.mem_flatMap.mp hx
    have hx := List.mem_map_of_mem (f := (·.2)) hx
    have hvalid := horderly.valid _ (List.mem_map_of_mem hp)
    rcases p.left_tokens with ⟨hleft, _⟩ | ⟨hleft, _⟩
    · rw [hleft] at hx
      rw [List.mem_singleton.mp hx]
      exact hvalid
    · rw [hleft] at hx
      rcases List.mem_cons.mp hx with hx | hx
      · rw [hx]
        trivial
      · rw [List.mem_singleton.mp hx]
        exact hvalid
  · exact left_apart (horderly.chain.imp fun _ _ hf => hf.2)

/-- A text of JSON alone: no comments and no trailing commas. -/
structure Bare (r : Rendering) : Prop where
  gaps : ∀ p ∈ r.pieces, ∀ x ∈ p.gap, x.isComment = false
  commas : ∀ p ∈ r.pieces, p.trailing = none
  gap : ∀ x ∈ r.gap, x.isComment = false
  tail : r.tail = none

theorem gapStripped_blank {gap : List Trivia} (h : ∀ x ∈ gap, x.isComment = false) :
    gapStripped gap = gapText gap := by
  refine List.flatMap_congr fun x hx => ?_
  cases x with
  | space c _ => rfl
  | line text _ => cases h _ hx
  | block text _ => cases h _ hx

/-- **A text of JSON alone is left as it is.** -/
theorem Bare.kept {r : Rendering} (hb : r.Bare) (h : Orderly r.tokens) :
    jsoncToJson r.text = r.text := by
  have hpieces : r.pieces.flatMap Piece.stripped = r.pieces.flatMap Piece.text := by
    refine List.flatMap_congr fun p hp => ?_
    unfold Piece.stripped Piece.text
    rw [hb.commas p hp, gapStripped_blank (hb.gaps p hp)]
    rfl
  rw [r.scan_stripped h, hpieces, gapStripped_blank hb.gap]
  unfold Rendering.text
  simp [hb.tail]

/-- No comment stands between a trailing comma and its closing mark. -/
def Plain (r : Rendering) : Prop :=
  ∀ p ∈ r.pieces, ∀ gap, p.trailing = some gap → ∀ x ∈ gap, x.isComment = false

end Rendering

theorem blank_iff {gap : List Trivia} :
    blank gap = true ↔ ∀ x ∈ gap, x.isComment = false := by
  unfold blank
  simp

/-- Where no comment follows a trailing comma the tokens of the text are left. -/
theorem Rendering.Plain.left {r : Rendering} (h : r.Plain) : r.left.map (·.2) = r.tokens := by
  have hone : ∀ p ∈ r.pieces, p.left.map (·.2) = [p.token] := by
    intro p hp
    rcases p.left_tokens with ⟨hleft, _⟩ | ⟨_, _, gap, ht, hb⟩
    · exact hleft
    · rw [blank_iff.mpr (h p hp gap ht)] at hb
      cases hb
  unfold Rendering.left Rendering.tokens
  rw [List.map_flatMap, ← List.flatMap_singleton' (r.pieces.map _), List.flatMap_map]
  exact List.flatMap_congr hone

/-- **When the value is kept.** The scanner turns a rendering into a text that parses to its
    value exactly where no comment stands between a trailing comma and its closing mark. -/
theorem jsonc_preserves {r : Rendering} {v : JsonValue} (h : r.Renders v) :
    Parses (jsoncToJson r.text) v ↔ r.Plain := by
  constructor
  · rintro ⟨toks, hlex, hspells⟩ p hp gap ht
    obtain rfl := Option.some.inj ((r.lex_left h).symm.trans hlex)
    rw [← blank_iff]
    by_contra hb
    -- the comma is left before the closing mark
    rcases p.left_tokens with ⟨_, hblank⟩ | ⟨hleft, hcloses, _⟩
    · exact hb (hblank gap ht)
    · obtain ⟨before, after, hpieces⟩ := List.append_of_mem hp
      have hinfix : [.mark .comma, p.token] <:+: r.left.map (·.2) := by
        unfold Rendering.left
        rw [hpieces, List.flatMap_append, List.flatMap_cons, List.map_append, List.map_append,
          hleft, ← List.append_assoc]
        exact ⟨_, _, rfl⟩
      have hpair := List.IsChain.infix (Spells.orderly hspells).chain hinfix
      have hopen := (hpair.rel_head? rfl).1 rfl
      rw [hcloses] at hopen
      cases hopen
  · intro hplain
    refine ⟨r.tokens, ?_, h⟩
    rw [r.lex_left h, hplain.left]

/-! ## 6. A comment behind a trailing comma -/

namespace AfterComma

/-- `[1]`. -/
def value : JsonValue := .array [.number ['1']]

/-- `[1,` and a gap before the bracket. -/
def rendering (gap : List Trivia) : Rendering where
  pieces := [⟨[], none, .mark .openBracket, fun h => by cases h⟩,
    ⟨[], none, .word ['1'], fun h => by cases h⟩, ⟨[], some gap, .mark .closeBracket, fun _ => rfl⟩]
  gap := []
  tail := none
  tail_line _ h := by cases h

theorem renders (gap : List Trivia) : (rendering gap).Renders value :=
  .array (.one (.number (by decide)))

/-- `/**/`. -/
def comment : Trivia := .block [] (by decide)

/-- A comment before the number, and a space behind the comma. -/
def commented : Rendering where
  pieces := [⟨[], none, .mark .openBracket, fun h => by cases h⟩,
    ⟨[comment], none, .word ['1'], fun h => by cases h⟩,
    ⟨[], some [.space ' ' rfl], .mark .closeBracket, fun _ => rfl⟩]
  gap := []
  tail := none
  tail_line _ h := by cases h

end AfterComma

open AfterComma in
/-- **The comma stays** before the bracket, and what is left is no JSON text of the value. -/
theorem jsonc_keeps_comma :
    (rendering [comment]).text = "[1,/**/]".toList ∧ (rendering [comment]).Renders value ∧
      ¬ Parses (jsoncToJson (rendering [comment]).text) value := by
  refine ⟨by decide, renders _, ?_⟩
  rintro ⟨toks, hlex, hspells⟩
  obtain rfl := Option.some.inj (((rendering [comment]).lex_left (renders _)).symm.trans hlex)
  have hchain := (Spells.orderly hspells).chain.tail.tail
  have hopen : (Token.mark .closeBracket).closes = false := (hchain.rel_head? rfl).1 rfl
  cases hopen

open AfterComma in
/-- With a space there instead the comma goes, and so does the comment elsewhere. -/
theorem jsonc_drops_comma :
    commented.text = "[/**/1, ]".toList ∧ Parses (jsoncToJson commented.text) value := by
  have hrenders : commented.Renders value := .array (.one (.number (by decide)))
  refine ⟨by decide, (jsonc_preserves hrenders).mpr fun p hp gap hgap x hx => ?_⟩
  have hall : ∀ p ∈ commented.pieces, p.trailing.elim true blank = true := by
    decide
  have hblank := hall p hp
  rw [hgap] at hblank
  exact blank_iff.mp hblank x hx

end Irez
