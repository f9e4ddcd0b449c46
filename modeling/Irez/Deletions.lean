/-
  File:      Irez/Deletions.lean
  Subject:   What `jsonc_to_json` deletes (mcp/src/install.rs 379-443).

  Every text is cut into segments in one way: string literals, comments, and characters that
  stand alone. The segments say of each character what it is part of, and with what follows it
  whether it is deleted.

  * `Cuts` -- the segments of a text;
  * `exists_cuts`, `Cuts.unique` -- every text has them, and only one list of them;
  * `Deleted`, `kept` -- the characters that go, and the text without them;
  * `Cuts.scan` -- the scanner leaves what is kept;
  * `jsonc_deletes` -- the conversion as a deletion.
-/
import Irez.Jsonc

open Irez.Basis.Json

namespace Irez.Jsonc

/-! ## 1. Segments -/

/-- A part of a text, outside of every other part. -/
inductive Segment where
  | plain (c : Char)
  | string (body : List Char)
  | openString (text : List Char)
  | line (text : List Char)
  | block (text : List Char)
  | openBlock (text : List Char)
  deriving DecidableEq, Repr

/-- What a character is part of. -/
inductive Role where
  | plain
  | string
  | line
  | block
  deriving DecidableEq, Repr

namespace Segment

def role : Segment → Role
  | .plain _ => .plain
  | .string _ | .openString _ => .string
  | .line _ => .line
  | .block _ | .openBlock _ => .block

def text : Segment → List Char
  | .plain c => [c]
  | .string body => '"' :: body ++ ['"']
  | .openString text => '"' :: text
  | .line text => '/' :: '/' :: text
  | .block text => '/' :: '*' :: text ++ ['*', '/']
  | .openBlock text => '/' :: '*' :: text

/-- The segment may stand before `rest`: it ends where it must, and a character that stands
    alone opens nothing. -/
def Stands (rest : List Char) : Segment → Prop
  | .plain c => c ≠ '"' ∧ (c = '/' → rest.head? ≠ some '/' ∧ rest.head? ≠ some '*')
  | .string body => StringBody body
  | .openString text => rest = [] ∧ ∀ body, StringBody body → ¬ body ++ ['"'] <+: text
  | .line text => '\n' ∉ text ∧ ∀ c ∈ rest.head?, c = '\n'
  | .block text => ¬ ['*', '/'] <:+: text
  | .openBlock text => rest = [] ∧ ¬ ['*', '/'] <:+: text

def isOpenBlock : Segment → Bool
  | .openBlock _ => true
  | _ => false

end Segment

/-- **The segments of a text.** -/
inductive Cuts : List Char → List Segment → Prop
  | nil : Cuts [] []
  | cons {s : Segment} {rest : List Char} {segments : List Segment} (hs : s.Stands rest)
      (h : Cuts rest segments) : Cuts (s.text ++ rest) (s :: segments)

/-- Each character with what it is part of. -/
def marks (segments : List Segment) : List (Char × Role) :=
  segments.flatMap fun s => s.text.map (·, s.role)

/-! ## 2. Every text is cut in one way -/

/-- The first end of a comment. -/
theorem exists_block {chars : List Char} (h : ['*', '/'] <:+: chars) :
    ∃ text rest, ¬ ['*', '/'] <:+: text ∧ chars = text ++ '*' :: '/' :: rest := by
  induction chars with
  | nil => simp at h
  | cons c chars ih =>
    by_cases hhere : ['*', '/'] <+: c :: chars
    · obtain ⟨rest, hrest⟩ := hhere
      exact ⟨[], rest, by simp, hrest.symm⟩
    · have hlater := (List.infix_cons_iff.mp h).resolve_left hhere
      obtain ⟨text, rest, hfree, rfl⟩ := ih hlater
      refine ⟨c :: text, rest, fun hin => ?_, rfl⟩
      rcases List.infix_cons_iff.mp hin with hp | hin
      · refine hhere (hp.trans ?_)
        exact ⟨'*' :: '/' :: rest, rfl⟩
      · exact hfree hin

/-- A text is empty, or some segment stands first. -/
theorem exists_segment (c : Char) (chars : List Char) :
    ∃ (s : Segment) (rest : List Char), s.Stands rest ∧ c :: chars = s.text ++ rest ∧
      rest.length < (c :: chars).length := by
  by_cases hq : c = '"'
  · subst hq
    by_cases hb : ∃ body, StringBody body ∧ body ++ ['"'] <+: chars
    · obtain ⟨body, hbody, rest, rfl⟩ := hb
      refine ⟨.string body, rest, hbody, by simp [Segment.text], ?_⟩
      simp only [List.length_cons, List.length_append]
      omega
    · refine ⟨.openString chars, [], ⟨rfl, fun body hbody hp => hb ⟨body, hbody, hp⟩⟩, ?_, by simp⟩
      simp [Segment.text]
  by_cases hline : c = '/' ∧ chars.head? = some '/'
  · obtain ⟨rfl, hhead⟩ := hline
    obtain ⟨chars, rfl⟩ := List.head?_eq_some_iff.mp hhead
    refine ⟨.line (chars.takeWhile (· ≠ '\n')), chars.dropWhile (· ≠ '\n'), ⟨?_, ?_⟩, ?_, ?_⟩
    · intro hn
      have hall : (chars.takeWhile (· ≠ '\n')).all (· ≠ '\n') = true := List.all_takeWhile
      simpa using List.all_eq_true.mp hall _ hn
    · intro d hd
      have hnot := List.head?_dropWhile_not (· ≠ '\n') chars
      rw [hd] at hnot
      simpa using hnot
    · simp [Segment.text]
    · have hle := (List.dropWhile_sublist (l := chars) (· ≠ '\n')).length_le
      simp only [List.length_cons]
      omega
  by_cases hblock : c = '/' ∧ chars.head? = some '*'
  · obtain ⟨rfl, hhead⟩ := hblock
    obtain ⟨chars, rfl⟩ := List.head?_eq_some_iff.mp hhead
    by_cases hend : ['*', '/'] <:+: chars
    · obtain ⟨text, rest, hfree, rfl⟩ := exists_block hend
      refine ⟨.block text, rest, hfree, by simp [Segment.text], ?_⟩
      simp only [List.length_cons, List.length_append]
      omega
    · exact ⟨.openBlock chars, [], ⟨rfl, hend⟩, by simp [Segment.text], by simp⟩
  · refine ⟨.plain c, chars, ⟨hq, fun hc => ⟨fun h => hline ⟨hc, h⟩, fun h => hblock ⟨hc, h⟩⟩⟩, rfl, ?_⟩
    simp

/-- **Every text has segments.** -/
theorem exists_cuts (input : List Char) : ∃ segments, Cuts input segments := by
  generalize hn : input.length = n
  induction n using Nat.strong_induction_on generalizing input with
  | _ n ih =>
    cases input with
    | nil => exact ⟨[], .nil⟩
    | cons c chars =>
      obtain ⟨s, rest, hs, htext, hlt⟩ := exists_segment c chars
      obtain ⟨segments, h⟩ := ih rest.length (hn ▸ hlt) rest rfl
      rw [htext]
      exact ⟨s :: segments, .cons hs h⟩

/-- A literal ends at its first quote. -/
theorem string_unique {body body' rest rest' : List Char} (h : StringBody body)
    (h' : StringBody body') (heq : body ++ '"' :: rest = body' ++ '"' :: rest') :
    body = body' ∧ rest = rest' := by
  induction h generalizing body' with
  | nil =>
    cases h' with
    | nil => exact ⟨rfl, (List.cons.inj heq).2⟩
    | plain hq _ _ => exact absurd (List.cons.inj heq).1.symm hq
    | escape _ => exact absurd (List.cons.inj heq).1 (by decide)
  | plain hq hb _ ih =>
    cases h' with
    | nil => exact absurd (List.cons.inj heq).1 hq
    | plain _ _ h' =>
      obtain ⟨rfl, htail⟩ := List.cons.inj heq
      obtain ⟨rfl, hrest⟩ := ih h' htail
      exact ⟨rfl, hrest⟩
    | escape _ => exact absurd (List.cons.inj heq).1 hb
  | escape _ ih =>
    cases h' with
    | nil => exact absurd (List.cons.inj heq).1 (by decide)
    | plain _ hb _ => exact absurd (List.cons.inj heq).1.symm hb
    | escape h' =>
      obtain ⟨rfl, htail⟩ := List.cons.inj (List.cons.inj heq).2
      obtain ⟨rfl, hrest⟩ := ih h' htail
      exact ⟨rfl, hrest⟩

/-- A comment of a line ends at the first line end. -/
theorem line_unique {text text' rest rest' : List Char} (h : '\n' ∉ text) (h' : '\n' ∉ text')
    (hr : ∀ c ∈ rest.head?, c = '\n') (hr' : ∀ c ∈ rest'.head?, c = '\n')
    (heq : text ++ rest = text' ++ rest') : text = text' ∧ rest = rest' := by
  induction text generalizing text' with
  | nil =>
    cases text' with
    | nil => exact ⟨rfl, heq⟩
    | cons c text' =>
      rw [List.nil_append] at heq
      obtain rfl := hr c (by rw [heq]; rfl)
      exact absurd List.mem_cons_self h'
  | cons c text ih =>
    cases text' with
    | nil =>
      rw [List.nil_append] at heq
      obtain rfl := hr' c (by rw [← heq]; rfl)
      exact absurd List.mem_cons_self h
    | cons d text' =>
      obtain ⟨rfl, htail⟩ := List.cons.inj heq
      obtain ⟨rfl, hrest⟩ := ih (fun hn => h (List.mem_cons_of_mem _ hn))
        (fun hn => h' (List.mem_cons_of_mem _ hn)) htail
      exact ⟨rfl, hrest⟩

/-- A comment ends at its first end. -/
theorem block_unique {text text' rest rest' : List Char} (h : ¬ ['*', '/'] <:+: text)
    (h' : ¬ ['*', '/'] <:+: text') (heq : text ++ '*' :: '/' :: rest = text' ++ '*' :: '/' :: rest') :
    text = text' ∧ rest = rest' := by
  have hboth : (text.filter (· = '\n'), rest) = (text'.filter (· = '\n'), rest') := by
    rw [← skipBlock_block h, heq, skipBlock_block h']
  obtain rfl := (Prod.ext_iff.mp hboth).2
  exact ⟨List.append_cancel_right heq, rfl⟩

/-- What the first character of a text is part of. -/
def roleAt : List Char → Role
  | '"' :: _ => .string
  | '/' :: '/' :: _ => .line
  | '/' :: '*' :: _ => .block
  | _ => .plain

theorem Segment.Stands.roleAt {s : Segment} {rest : List Char} (h : s.Stands rest) :
    roleAt (s.text ++ rest) = s.role := by
  cases s with
  | plain c =>
    show Jsonc.roleAt (c :: rest) = .plain
    unfold Jsonc.roleAt
    split
    · rename_i heq
      exact absurd (List.cons.inj heq).1 h.1
    · rename_i heq
      obtain ⟨rfl, rfl⟩ := List.cons.inj heq
      exact absurd rfl (h.2 rfl).1
    · rename_i heq
      obtain ⟨rfl, rfl⟩ := List.cons.inj heq
      exact absurd rfl (h.2 rfl).2
    · rfl
  | _ => rfl

/-- **Segments that stand first in one text are the same.** -/
theorem Segment.Stands.unique {s s' : Segment} {rest rest' : List Char} (h : s.Stands rest)
    (h' : s'.Stands rest') (heq : s.text ++ rest = s'.text ++ rest') : s = s' ∧ rest = rest' := by
  have hrole : s.role = s'.role := by rw [← h.roleAt, heq, h'.roleAt]
  cases s with
  | plain c =>
    cases s' with
    | plain c' =>
      obtain ⟨rfl, rfl⟩ := List.cons.inj heq
      exact ⟨rfl, rfl⟩
    | _ => cases hrole
  | string body =>
    cases s' with
    | string body' =>
      simp only [Segment.text, List.cons_append, List.append_assoc, List.nil_append] at heq
      obtain ⟨rfl, rfl⟩ := string_unique h h' (List.cons.inj heq).2
      exact ⟨rfl, rfl⟩
    | openString text' =>
      obtain ⟨rfl, hopen⟩ := h'
      simp only [Segment.text, List.cons_append, List.append_assoc, List.append_nil] at heq
      exact absurd ⟨rest, by simpa using (List.cons.inj heq).2⟩ (hopen body h)
    | _ => cases hrole
  | openString text =>
    obtain ⟨rfl, hopen⟩ := h
    cases s' with
    | string body' =>
      simp only [Segment.text, List.cons_append, List.append_assoc, List.append_nil] at heq
      exact absurd ⟨rest', by simpa using (List.cons.inj heq).2.symm⟩ (hopen body' h')
    | openString text' =>
      obtain ⟨rfl, _⟩ := h'
      simp only [Segment.text, List.append_nil] at heq
      obtain rfl := (List.cons.inj heq).2
      exact ⟨rfl, rfl⟩
    | _ => cases hrole
  | line text =>
    cases s' with
    | line text' =>
      simp only [Segment.text, List.cons_append] at heq
      have htail := (List.cons.inj (List.cons.inj heq).2).2
      obtain ⟨rfl, rfl⟩ := line_unique h.1 h'.1 h.2 h'.2 htail
      exact ⟨rfl, rfl⟩
    | _ => cases hrole
  | block text =>
    cases s' with
    | block text' =>
      simp only [Segment.text, List.cons_append, List.append_assoc, List.nil_append] at heq
      have htail := (List.cons.inj (List.cons.inj heq).2).2
      obtain ⟨rfl, rfl⟩ := block_unique h h' htail
      exact ⟨rfl, rfl⟩
    | openBlock text' =>
      obtain ⟨rfl, hopen⟩ := h'
      simp only [Segment.text, List.cons_append, List.append_assoc, List.append_nil] at heq
      have htail := (List.cons.inj (List.cons.inj heq).2).2
      exact absurd ⟨text, rest, by simpa using htail⟩ hopen
    | _ => cases hrole
  | openBlock text =>
    obtain ⟨rfl, hopen⟩ := h
    cases s' with
    | block text' =>
      simp only [Segment.text, List.cons_append, List.append_assoc, List.append_nil] at heq
      have htail := (List.cons.inj (List.cons.inj heq).2).2
      exact absurd ⟨text', rest', by simpa using htail.symm⟩ hopen
    | openBlock text' =>
      obtain ⟨rfl, _⟩ := h'
      simp only [Segment.text, List.append_nil] at heq
      obtain rfl := (List.cons.inj (List.cons.inj heq).2).2
      exact ⟨rfl, rfl⟩
    | _ => cases hrole

theorem Segment.text_ne_nil (s : Segment) : s.text ≠ [] := by
  cases s <;> simp [Segment.text]

theorem Cuts.inv {input : List Char} {segments : List Segment} (h : Cuts input segments) :
    (input = [] ∧ segments = []) ∨ ∃ s rest later, s.Stands rest ∧ Cuts rest later ∧
      input = s.text ++ rest ∧ segments = s :: later := by
  cases h with
  | nil => exact .inl ⟨rfl, rfl⟩
  | cons hs h => exact .inr ⟨_, _, _, hs, h, rfl, rfl⟩

/-- **A text has one list of segments.** -/
theorem Cuts.unique {input : List Char} {segments segments' : List Segment}
    (h : Cuts input segments) (h' : Cuts input segments') : segments = segments' := by
  induction h generalizing segments' with
  | nil =>
    rcases h'.inv with ⟨_, rfl⟩ | ⟨s, rest, later, _, _, heq, _⟩
    · rfl
    · exact absurd (List.append_eq_nil_iff.mp heq.symm).1 s.text_ne_nil
  | cons hs _ ih =>
    rcases h'.inv with ⟨heq, _⟩ | ⟨s', rest', later, hs', h', heq, rfl⟩
    · exact absurd (List.append_eq_nil_iff.mp heq).1 (Segment.text_ne_nil _)
    · obtain ⟨rfl, rfl⟩ := hs.unique hs' heq
      rw [ih h']

/-! ## 3. What is deleted -/

/-- Only whitespace, and then a closing bracket or brace. -/
def CloserFollows (following : List Char) : Prop :=
  ∃ spaces c rest, following = spaces ++ c :: rest ∧ (∀ x ∈ spaces, isWhitespace x = true) ∧
    (c = '}' ∨ c = ']')

/-- **A character goes** with a comment, unless it ends a line within a block, and as a comma
    that only whitespace divides from a closing bracket or brace. -/
def Deleted (c : Char) (following : List Char) : Role → Prop
  | .plain => c = ',' ∧ CloserFollows following
  | .string => False
  | .line => True
  | .block => c ≠ '\n'

theorem closerFollows_iff {following : List Char} :
    closerFollows following = true ↔ CloserFollows following := by
  constructor
  · intro h
    unfold closerFollows at h
    split at h
    · rename_i c hc
      obtain ⟨rest, hrest⟩ := List.head?_eq_some_iff.mp hc
      refine ⟨following.takeWhile isWhitespace, c, rest, ?_, ?_, by simpa using h⟩
      · rw [← hrest, List.takeWhile_append_dropWhile]
      · exact List.all_eq_true.mp List.all_takeWhile
    · cases h
  · intro ⟨spaces, c, rest, heq, hspaces, hc⟩
    have hnot : isWhitespace c = false := by
      rcases hc with rfl | rfl
      · decide
      · decide
    unfold closerFollows
    rw [heq, List.dropWhile_append_of_pos hspaces, List.dropWhile_cons_of_neg (by simp [hnot])]
    simpa using hc

instance (following : List Char) : Decidable (CloserFollows following) :=
  decidable_of_iff _ closerFollows_iff

instance (c : Char) (following : List Char) (r : Role) : Decidable (Deleted c following r) :=
  match r with
  | .plain => inferInstanceAs (Decidable (c = ',' ∧ CloserFollows following))
  | .string => inferInstanceAs (Decidable False)
  | .line => inferInstanceAs (Decidable True)
  | .block => inferInstanceAs (Decidable (c ≠ '\n'))

/-- **The text without what is deleted.** -/
def kept : List (Char × Role) → List Char
  | [] => []
  | (c, r) :: rest =>
    if Deleted c (rest.map (·.1)) r then kept rest else c :: kept rest

-- a comment between the comma and the bracket keeps the comma
example : kept (marks [.plain '1', .plain ',', .block ['\n', 'x'], .plain ']', .plain ',',
    .plain ' ', .plain '}']) = ['1', ',', '\n', ']', ' ', '}'] := by decide

theorem kept_of_deleted {c : Char} {r : Role} {rest : List (Char × Role)}
    (h : Deleted c (rest.map (·.1)) r) : kept ((c, r) :: rest) = kept rest := if_pos h

theorem kept_of_not {c : Char} {r : Role} {rest : List (Char × Role)}
    (h : ¬ Deleted c (rest.map (·.1)) r) : kept ((c, r) :: rest) = c :: kept rest := if_neg h

theorem kept_string {text : List Char} {rest : List (Char × Role)} :
    kept (text.map (·, .string) ++ rest) = text ++ kept rest := by
  induction text with
  | nil => rfl
  | cons c text ih =>
    rw [List.map_cons, List.cons_append, kept_of_not id, ih]
    rfl

theorem kept_line {text : List Char} {rest : List (Char × Role)} :
    kept (text.map (·, .line) ++ rest) = kept rest := by
  induction text with
  | nil => rfl
  | cons c text ih => exact (kept_of_deleted (r := .line) trivial).trans ih

theorem kept_block {text : List Char} {rest : List (Char × Role)} :
    kept (text.map (·, .block) ++ rest) = text.filter (· = '\n') ++ kept rest := by
  induction text with
  | nil => rfl
  | cons c text ih =>
    rw [List.map_cons, List.cons_append, kept, ih]
    by_cases hc : c = '\n'
    · simp [Deleted, hc]
    · simp [Deleted, hc]

theorem marks_cons (s : Segment) (segments : List Segment) :
    marks (s :: segments) = s.text.map (·, s.role) ++ marks segments := List.flatMap_cons

/-- The characters of the segments are those of the text. -/
theorem Cuts.marks_text {input : List Char} {segments : List Segment} (h : Cuts input segments) :
    (marks segments).map (·.1) = input := by
  induction h with
  | nil => rfl
  | cons hs _ ih =>
    rw [marks_cons, List.map_append, ih, List.map_map]
    exact congrArg (· ++ _) (List.map_id _)

/-! ## 4. The scanner leaves what is kept -/

/-- A literal without an end is copied. -/
theorem scan_openString {text : List Char}
    (h : ∀ body, StringBody body → ¬ body ++ ['"'] <+: text) : scan true text = text := by
  generalize hn : text.length = n
  induction n using Nat.strong_induction_on generalizing text with
  | _ n ih =>
    cases text with
    | nil => rw [scan.eq_def]
    | cons c text =>
      by_cases hb : c = '\\'
      · subst hb
        cases text with
        | nil =>
          rw [scan.eq_def]
          simp
        | cons d text =>
          have hlater : scan true text = text := by
            refine ih text.length ?_ (fun body hbody hp => ?_) rfl
            · simp only [List.length_cons] at hn
              omega
            · obtain ⟨rest, rfl⟩ := hp
              exact h _ (.escape (c := d) hbody) ⟨rest, rfl⟩
          rw [scan.eq_def]
          simp [hlater]
      · have hq : c ≠ '"' := by
          intro hq
          subst hq
          exact h [] .nil ⟨text, rfl⟩
        have hlater : scan true text = text := by
          refine ih text.length ?_ (fun body hbody hp => ?_) rfl
          · simp only [List.length_cons] at hn
            omega
          · obtain ⟨rest, rfl⟩ := hp
            exact h _ (.plain hq hb hbody) ⟨rest, rfl⟩
        rw [scan.eq_def]
        simp [hb, hq, hlater]

theorem scan_quote {text : List Char} : scan false ('"' :: text) = '"' :: scan true text := by
  rw [scan.eq_def]
  simp

/-- A character that stands alone is copied, if it is no comma. -/
theorem scan_alone {c : Char} {rest : List Char} (h : (Segment.plain c).Stands rest)
    (hc : c ≠ ',') : scan false (c :: rest) = c :: scan false rest := by
  by_cases hslash : c = '/'
  · subst hslash
    have hhead := h.2 rfl
    rw [scan.eq_def]
    simp [hhead]
  · exact scan_plain ⟨h.1, hslash, hc⟩

/-- What follows a comment of a line is its line end. -/
theorem skipLine_rest {rest : List Char} (h : ∀ c ∈ rest.head?, c = '\n') :
    skipLine rest = rest := by
  cases rest with
  | nil => rfl
  | cons c rest =>
    obtain rfl := h c rfl
    rfl

/-- **The scanner leaves what is kept**, if no block comment is left open. -/
theorem Cuts.scan {input : List Char} {segments : List Segment} (h : Cuts input segments)
    (hopen : ∀ s ∈ segments, s.isOpenBlock = false) :
    scan false input = kept (marks segments) := by
  induction h with
  | nil =>
    rw [scan.eq_def]
    rfl
  | @cons s rest segments hs h ih =>
    have ih := ih fun s hs => hopen s (List.mem_cons_of_mem _ hs)
    rw [marks_cons]
    cases s with
    | plain c =>
      show Irez.scan false (c :: rest) = kept ((c, .plain) :: marks segments)
      rw [kept, h.marks_text]
      by_cases hc : c = ','
      · subst hc
        rw [scan_comma, ih]
        by_cases hcloser : CloserFollows rest
        · rw [if_pos (closerFollows_iff.mpr hcloser), if_pos ⟨rfl, hcloser⟩]
        · rw [if_neg fun hf => hcloser (closerFollows_iff.mp hf), if_neg fun hd => hcloser hd.2]
      · rw [scan_alone hs hc, ih, if_neg fun hd => hc hd.1]
    | string body =>
      show _ = kept (_ ++ _)
      rw [Segment.role, kept_string, ← ih]
      simp only [Segment.text, List.cons_append, List.append_assoc, List.nil_append]
      rw [scan_quote, scan_string hs]
    | openString text =>
      obtain ⟨rfl, hbody⟩ := hs
      rw [Segment.role, kept_string, ← ih, List.append_nil]
      have hnil : Irez.scan false [] = [] := by rw [scan.eq_def]
      rw [hnil, List.append_nil]
      show Irez.scan false ('"' :: text) = '"' :: text
      rw [scan_quote, scan_openString hbody]
    | line text =>
      rw [Segment.role, kept_line, ← ih]
      show Irez.scan false ('/' :: '/' :: (text ++ rest)) = _
      rw [scan_line hs.1, skipLine_rest hs.2]
    | block text =>
      rw [Segment.role, kept_block, ← ih]
      simp only [Segment.text, List.cons_append, List.append_assoc, List.nil_append]
      rw [scan_block hs]
      simp
    | openBlock text => cases hopen _ List.mem_cons_self

/-! ## 5. Lines -/

/-- A comment of a line has no line end in it. -/
theorem Cuts.line_inside {input : List Char} {segments : List Segment} (h : Cuts input segments) :
    ∀ m ∈ marks segments, m.2 = .line → m.1 ≠ '\n' := by
  induction h with
  | nil =>
    intro m hm
    cases hm
  | @cons s rest segments hs _ ih =>
    intro m hm hr
    rw [marks_cons] at hm
    rcases List.mem_append.mp hm with hm | hm
    · obtain ⟨c, hc, rfl⟩ := List.mem_map.mp hm
      cases s with
      | line text =>
        intro hn
        obtain rfl : c = '\n' := hn
        have hin : '\n' ∈ text := by simpa [Segment.text] using hc
        exact hs.1 hin
      | _ => cases hr
    · exact ih m hm hr

/-- **Every line end is kept**, so that from each place on the lines are those of the text. -/
theorem count_kept {ms : List (Char × Role)} (h : ∀ m ∈ ms, m.2 = .line → m.1 ≠ '\n') :
    (kept ms).count '\n' = (ms.map (·.1)).count '\n' := by
  induction ms with
  | nil => rfl
  | cons m ms ih =>
    obtain ⟨c, r⟩ := m
    have ih := ih fun m hm => h m (List.mem_cons_of_mem _ hm)
    by_cases hd : Deleted c (ms.map (·.1)) r
    · have hc : c ≠ '\n' := by
        cases r with
        | plain =>
          rw [hd.1]
          decide
        | string => exact hd.elim
        | line => exact h _ List.mem_cons_self rfl
        | block => exact hd
      rw [kept_of_deleted hd, ih, List.map_cons, List.count_cons_of_ne hc]
    · rw [kept_of_not hd, List.map_cons, List.count_cons, List.count_cons, ih]

/-! ## 6. Texts of the grammar -/

/-- **A text of JSON.** -/
def IsJson (text : List Char) : Prop := ∃ toks, lex text = some toks ∧ IsValue toks

/-- Spaces as a gap. -/
def spaces (gap : List Char) (h : ∀ c ∈ gap, isSpace c = true) : List Trivia :=
  gap.pmap .space h

theorem gapText_spaces {gap : List Char} {h : ∀ c ∈ gap, isSpace c = true} :
    gapText (spaces gap h) = gap := by
  induction gap with
  | nil => rfl
  | cons c gap ih =>
    have htail : gapText (spaces gap fun c hc => h c (List.mem_cons_of_mem _ hc)) = gap := ih
    exact congrArg (c :: ·) htail

theorem spaces_blank {gap : List Char} {h : ∀ c ∈ gap, isSpace c = true} :
    ∀ x ∈ spaces gap h, x.isComment = false := by
  intro x hx
  obtain ⟨c, hc, rfl⟩ := List.mem_pmap.mp hx
  rfl

/-- A token behind its spaces, as a piece. -/
def piece (x : List Char × Token) (h : ∀ c ∈ x.1, isSpace c = true) : Piece where
  gap := spaces x.1 h
  trailing := none
  token := x.2
  closes h := by cases h

theorem piece_text {x : List Char × Token} {h : ∀ c ∈ x.1, isSpace c = true} :
    (piece x h).text = x.1 ++ x.2.text := by
  show gapText (spaces x.1 h) ++ [] ++ x.2.text = _
  rw [gapText_spaces, List.append_nil]

theorem pieces_text {pieces : List (List Char × Token)}
    {hp : ∀ x ∈ pieces, ∀ c ∈ x.1, isSpace c = true} :
    (pieces.pmap piece hp).flatMap Piece.text = spaced pieces := by
  induction pieces with
  | nil => rfl
  | cons x pieces ih =>
    rw [List.pmap_cons, List.flatMap_cons, ih, piece_text]
    rfl

/-- Spaced tokens are a rendering without comments. -/
theorem exists_bare {pieces : List (List Char × Token)} {gap : List Char}
    (hp : ∀ x ∈ pieces, ∀ c ∈ x.1, isSpace c = true) (hg : ∀ c ∈ gap, isSpace c = true) :
    ∃ r : Rendering, r.Bare ∧ r.tokens = pieces.map (·.2) ∧ r.text = spaced pieces ++ gap := by
  let r : Rendering :=
    { pieces := pieces.pmap piece hp, gap := spaces gap hg, tail := none,
      tail_line := fun _ h => by cases h }
  have hmem (p : Piece) (h : p ∈ r.pieces) : ∃ x, ∃ hx, p = piece x hx := by
    obtain ⟨x, hx, rfl⟩ := List.mem_pmap.mp h
    exact ⟨x, _, rfl⟩
  refine ⟨r, ⟨?_, ?_, spaces_blank, rfl⟩, ?_, ?_⟩
  · intro p h
    obtain ⟨x, hx, rfl⟩ := hmem p h
    exact spaces_blank
  · intro p h
    obtain ⟨x, hx, rfl⟩ := hmem p h
    rfl
  · exact (List.map_pmap ..).trans (List.pmap_eq_map ..)
  · show (pieces.pmap piece hp).flatMap Piece.text ++ gapText (spaces gap hg) ++ [] = _
    rw [pieces_text, gapText_spaces, List.append_nil]

/-- **A text of JSON is left as it is.** -/
theorem IsJson.kept {text : List Char} (h : IsJson text) : jsoncToJson text = text := by
  obtain ⟨toks, hlex, hvalue⟩ := h
  obtain ⟨pieces, gap, htoks, hp, hg, rfl⟩ := spaced_of_lex hlex
  obtain ⟨r, hbare, htokens, htext⟩ := exists_bare hp hg
  have horderly : Orderly r.tokens := by
    rw [htokens, htoks]
    exact hvalue.orderly
  rw [← htext]
  exact hbare.kept horderly

/-! ## 7. The conversion as a deletion -/

/-- **Only what must go is deleted.** A text has one list of segments. If no block comment is left
    open, then of the characters of the segments the conversion leaves those that are not deleted,
    with every literal whole and every line end; and a text of JSON it leaves as it is. -/
theorem jsonc_deletes (input : List Char) :
    (∃ segments, Cuts input segments ∧ (∀ other, Cuts input other → other = segments) ∧
      (marks segments).map (·.1) = input ∧
      ((∀ s ∈ segments, s.isOpenBlock = false) →
        jsoncToJson input = kept (marks segments) ∧
        (jsoncToJson input).count '\n' = input.count '\n')) ∧
      (IsJson input → jsoncToJson input = input) := by
  obtain ⟨segments, h⟩ := exists_cuts input
  refine ⟨⟨segments, h, fun other ho => ho.unique h, h.marks_text, fun hopen => ?_⟩, IsJson.kept⟩
  have hkept : jsoncToJson input = kept (marks segments) := h.scan hopen
  refine ⟨hkept, ?_⟩
  rw [hkept, count_kept h.line_inside, h.marks_text]

end Irez.Jsonc
