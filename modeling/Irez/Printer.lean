/-
  File:      Irez/Printer.lean
  Subject:   `to_string_pretty` for values whose strings need no escapes.

  The printer puts every item and member on a line of its own, two spaces further in than what
  holds it. It is a rendering without comments and trailing commas.

  * `pieces` -- the tokens of a value with the spaces before them;
  * `spells_pieces` -- they spell the value;
  * `bare_rendering` -- there are only spaces between them;
  * `serde` -- a reader of the printed texts of given values.
-/
import Irez.Install

open Irez.Basis.Json

namespace Irez.Installer.Printer

/-! ## 1. The printer -/

def space : Trivia := .space ' ' (by decide)

def line (depth : Nat) : List Trivia :=
  .space '\n' (by decide) :: List.replicate (2 * depth) space

/-- A token behind a gap. -/
def piece (gap : List Trivia) (token : Token) : Piece := ⟨gap, none, token, fun h => by cases h⟩

def separator (first : Bool) : List Piece := if first then [] else [piece [] (.mark .comma)]

mutual

def pieces (gap : List Trivia) (depth : Nat) : JsonValue → List Piece
  | .null => [piece gap (.word "null".toList)]
  | .bool true => [piece gap (.word "true".toList)]
  | .bool false => [piece gap (.word "false".toList)]
  | .number w => [piece gap (.word w)]
  | .string s => [piece gap (.string s)]
  | .array vs =>
    piece gap (.mark .openBracket) :: itemPieces (depth + 1) true vs ++
      [piece (if vs.isEmpty then [] else line depth) (.mark .closeBracket)]
  | .object ms =>
    piece gap (.mark .openBrace) :: memberPieces (depth + 1) true ms ++
      [piece (if ms.isEmpty then [] else line depth) (.mark .closeBrace)]

/-- Items; the first has no comma before it. -/
def itemPieces (depth : Nat) (first : Bool) : List JsonValue → List Piece
  | [] => []
  | v :: vs =>
    separator first ++ pieces (line depth) depth v ++ itemPieces depth false vs

/-- Members; the first has no comma before it. -/
def memberPieces (depth : Nat) (first : Bool) : List (List Char × JsonValue) → List Piece
  | [] => []
  | (k, v) :: ms =>
    separator first ++ piece (line depth) (.string k) :: piece [] (.mark .colon) ::
      pieces [space] depth v ++ memberPieces depth false ms

end

def rendering (v : JsonValue) : Rendering where
  pieces := pieces [] 0 v
  gap := []
  tail := none
  tail_line := tailless

def toStringPretty (v : JsonValue) : List Char := (rendering v).text

/-! ## 2. It spells the value -/

mutual

/-- Numbers are numbers, and no string needs an escape. -/
def plain : JsonValue → Bool
  | .number w => isNumber w
  | .string s => unescape s = some s
  | .array vs => plainItems vs
  | .object ms => plainMembers ms
  | _ => true

def plainItems : List JsonValue → Bool
  | [] => true
  | v :: vs => plain v && plainItems vs

def plainMembers : List (List Char × JsonValue) → Bool
  | [] => true
  | (k, v) :: ms => unescape k = some k && plain v && plainMembers ms

end

def tokens (ps : List Piece) : List Token := ps.map (·.token)

theorem itemPieces_next (depth : Nat) {vs : List JsonValue} (h : vs ≠ []) :
    tokens (itemPieces depth false vs) = .mark .comma :: tokens (itemPieces depth true vs) := by
  cases vs with
  | nil => exact absurd rfl h
  | cons v vs => simp [itemPieces, separator, tokens, piece]

theorem memberPieces_next (depth : Nat) {ms : List (List Char × JsonValue)} (h : ms ≠ []) :
    tokens (memberPieces depth false ms) =
      .mark .comma :: tokens (memberPieces depth true ms) := by
  cases ms with
  | nil => exact absurd rfl h
  | cons m ms => simp [memberPieces, separator, tokens, piece]

mutual

theorem spells_pieces (gap : List Trivia) (depth : Nat) (v : JsonValue) (h : plain v = true) :
    Spells v (tokens (pieces gap depth v)) := by
  cases v with
  | null => exact .null
  | bool b => cases b with
    | true => exact .true
    | false => exact .false
  | number w => exact .number (by simpa [plain] using h)
  | string s => exact .string (by simpa [plain] using h)
  | array vs =>
    by_cases hne : vs = []
    · rw [hne]
      exact .emptyArray
    · have hwhole := Spells.array (spells_itemPieces (depth + 1) vs hne (by simpa [plain] using h))
      simpa [pieces, tokens, piece] using hwhole
  | object ms =>
    by_cases hne : ms = []
    · rw [hne]
      exact .emptyObject
    · have hwhole :=
        Spells.object (spells_memberPieces (depth + 1) ms hne (by simpa [plain] using h))
      simpa [pieces, tokens, piece] using hwhole

theorem spells_itemPieces (depth : Nat) (vs : List JsonValue) (hne : vs ≠ [])
    (h : plainItems vs = true) : SpellsItems vs (tokens (itemPieces depth true vs)) := by
  match vs with
  | [] => exact absurd rfl hne
  | v :: vs =>
    simp only [plainItems, Bool.and_eq_true] at h
    have hv := spells_pieces (line depth) depth v h.1
    by_cases hrest : vs = []
    · rw [hrest]
      simpa [itemPieces, separator, tokens] using SpellsItems.one hv
    · have hmore := SpellsItems.more hv (spells_itemPieces depth vs hrest h.2)
      rw [← itemPieces_next depth hrest] at hmore
      simpa [itemPieces, separator, tokens] using hmore

theorem spells_memberPieces (depth : Nat) (ms : List (List Char × JsonValue)) (hne : ms ≠ [])
    (h : plainMembers ms = true) :
    SpellsMembers ms (tokens (memberPieces depth true ms)) := by
  match ms with
  | [] => exact absurd rfl hne
  | (k, v) :: ms =>
    simp only [plainMembers, Bool.and_eq_true, decide_eq_true_eq] at h
    have hv := spells_pieces [space] depth v h.1.2
    by_cases hrest : ms = []
    · rw [hrest]
      simpa [memberPieces, separator, tokens, piece] using SpellsMembers.one h.1.1 hv
    · have hmore := SpellsMembers.more h.1.1 hv (spells_memberPieces depth ms hrest h.2)
      rw [← memberPieces_next depth hrest] at hmore
      simpa [memberPieces, separator, tokens, piece] using hmore

end

/-! ## 3. It is bare -/

theorem line_blank (depth : Nat) : ∀ x ∈ line depth, x.isComment = false := by
  intro x hx
  rcases List.mem_cons.mp hx with rfl | hx
  · rfl
  · rw [List.eq_of_mem_replicate hx]
    rfl

/-- A piece behind spaces, with no comma before its token. -/
def Blank (p : Piece) : Prop := (∀ x ∈ p.gap, x.isComment = false) ∧ p.trailing = none

theorem blank_piece {gap : List Trivia} (h : ∀ x ∈ gap, x.isComment = false) (t : Token) :
    Blank (piece gap t) := ⟨h, rfl⟩

theorem blank_next (t : Token) : Blank (piece [] t) := ⟨fun _ h => (by cases h), rfl⟩

theorem blank_separator (first : Bool) : ∀ p ∈ separator first, Blank p := by
  intro p hp
  cases first with
  | true => cases hp
  | false =>
    rw [List.mem_singleton.mp hp]
    exact blank_next _

mutual

theorem blank_pieces (gap : List Trivia) (hgap : ∀ x ∈ gap, x.isComment = false) (depth : Nat)
    (v : JsonValue) : ∀ p ∈ pieces gap depth v, Blank p := by
  have hone : ∀ t, ∀ p ∈ [piece gap t], Blank p := by
    intro t p hp
    rw [List.mem_singleton.mp hp]
    exact blank_piece hgap t
  have hend : ∀ (b : Bool) (t : Token),
      Blank (piece (if b then [] else line depth) t) := by
    intro b t
    cases b with
    | true => exact blank_next t
    | false => exact blank_piece (line_blank depth) t
  cases v with
  | null => exact hone _
  | bool b => cases b <;> exact hone _
  | number w => exact hone _
  | string s => exact hone _
  | array vs =>
    intro p hp
    simp only [pieces, List.cons_append, List.mem_cons, List.mem_append, List.not_mem_nil,
      or_false] at hp
    rcases hp with rfl | hp | rfl
    · exact blank_piece hgap _
    · exact blank_itemPieces (depth + 1) true vs p hp
    · exact hend _ _
  | object ms =>
    intro p hp
    simp only [pieces, List.cons_append, List.mem_cons, List.mem_append, List.not_mem_nil,
      or_false] at hp
    rcases hp with rfl | hp | rfl
    · exact blank_piece hgap _
    · exact blank_memberPieces (depth + 1) true ms p hp
    · exact hend _ _

theorem blank_itemPieces (depth : Nat) (first : Bool) (vs : List JsonValue) :
    ∀ p ∈ itemPieces depth first vs, Blank p := by
  match vs with
  | [] =>
    intro p hp
    cases hp
  | v :: vs =>
    intro p hp
    simp only [itemPieces, List.mem_append] at hp
    rcases hp with (hp | hp) | hp
    · exact blank_separator first p hp
    · exact blank_pieces (line depth) (line_blank depth) depth v p hp
    · exact blank_itemPieces depth false vs p hp

theorem blank_memberPieces (depth : Nat) (first : Bool) (ms : List (List Char × JsonValue)) :
    ∀ p ∈ memberPieces depth first ms, Blank p := by
  match ms with
  | [] =>
    intro p hp
    cases hp
  | (k, v) :: ms =>
    intro p hp
    simp only [memberPieces, List.mem_append, List.mem_cons] at hp
    rcases hp with (hp | rfl | rfl | hp) | hp
    · exact blank_separator first p hp
    · exact blank_piece (line_blank depth) _
    · exact blank_next _
    · refine blank_pieces [space] ?_ depth v p hp
      intro x hx
      rw [List.mem_singleton.mp hx]
      rfl
    · exact blank_memberPieces depth false ms p hp

end

theorem bare_rendering (v : JsonValue) : (rendering v).Bare where
  gaps p hp := (blank_pieces [] (fun _ h => by cases h) 0 v p hp).1
  commas p hp := (blank_pieces [] (fun _ h => by cases h) 0 v p hp).2
  gap _ h := by cases h
  tail := rfl

/-- **What is printed parses to the value.** -/
theorem parses_toStringPretty {v : JsonValue} (h : plain v = true) : Parses (toStringPretty v) v := by
  have hrenders : (rendering v).Renders v := spells_pieces [] 0 v h
  have hbare := bare_rendering v
  have hplain : (rendering v).Plain := by
    intro p hp gap hgap
    rw [hbare.commas p hp] at hgap
    cases hgap
  have hlex := Rendering.lex_left hrenders
  rw [hbare.kept (Spells.orderly hrenders), hplain.left] at hlex
  exact ⟨_, hlex, hrenders⟩

/-! ## 4. A reader -/

/-- The printer, and a reader of the texts that it prints of the given values. -/
def serde (vs : List JsonValue) : Serde where
  fromStr text := vs.find? fun v => toStringPretty v = text || toStringPretty v ++ ['\n'] = text
  toStringPretty := toStringPretty

/-- **A printed value that is read back** is printed as JSON alone. To be read back is a condition
    on the value: `serde_json` does not read every number back as it was. -/
theorem prints {vs : List JsonValue} {v : JsonValue} (hplain : plain v = true)
    (hreads : (serde vs).Reads v)
    (hnewline : (serde vs).fromStr (toStringPretty v ++ ['\n']) = some v) :
    (serde vs).Prints v where
  reads := hreads
  newline := hnewline.trans hreads.symm
  bare := ⟨rendering v, bare_rendering v, spells_pieces [] 0 v hplain, rfl⟩

end Irez.Installer.Printer
