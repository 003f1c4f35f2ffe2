import BagQuery.Program.Complaint
import BagQuery.Text.Blank

/-!
# Reading tokens

Tokens are separated by blanks and by comments, which go from two minus signs to the end of the
line; both may be missing where two tokens cannot run together.  A token is the longest one that
starts at its place.

`lex` gives the tokens of a text with their places, and the place behind the text.  It ends
because every token takes a character at least (`length_token_lt`).
-/

namespace BagQuery

open Text

/-- A place in a text and the characters from there on. -/
structure Cursor where
  place : Position
  rest : List Char

namespace Cursor

/-- Moves over a text that the characters start with. -/
def advance (place : Position) (taken rest : List Char) : Cursor := ⟨place.afterAll taken, rest⟩

/-- Skips blanks and comments. -/
def skipTrivia : (inComment : Bool) → Position → List Char → Cursor
  | _, place, [] => ⟨place, []⟩
  | true, place, c :: cs => skipTrivia (c != '\n') (place.after c) cs
  | false, place, '-' :: '-' :: cs =>
    skipTrivia true ((place.after '-').after '-') cs
  | false, place, c :: cs =>
    if isBlank c then skipTrivia false (place.after c) cs else ⟨place, c :: cs⟩

section

variable {place : Position} {c : Char} {cs : List Char}

theorem skipTrivia_nil {inComment : Bool} : skipTrivia inComment place [] = ⟨place, []⟩ := by
  cases inComment <;> rfl

theorem skipTrivia_inComment :
    skipTrivia true place (c :: cs) = skipTrivia (c != '\n') (place.after c) cs := rfl

theorem skipTrivia_opening :
    skipTrivia false place ('-' :: '-' :: cs) =
      skipTrivia true ((place.after '-').after '-') cs := rfl

theorem skipTrivia_cons (h : c = '-' → cs.head? ≠ some '-') :
    skipTrivia false place (c :: cs) =
      if isBlank c then skipTrivia false (place.after c) cs else ⟨place, c :: cs⟩ := by
  rw [skipTrivia.eq_def]
  split <;> simp_all

end

theorem length_skipTrivia_le (inComment : Bool) (place : Position) (cs : List Char) :
    (skipTrivia inComment place cs).rest.length ≤ cs.length := by
  fun_induction skipTrivia inComment place cs <;> simp_all <;> omega

end Cursor

namespace Lexer

/-- A character that a word may start with. -/
def isWordStart (c : Char) : Bool := c.isAlpha || c == '_'

/-- A character that a word may go on with. -/
def isWordPart (c : Char) : Bool := c.isAlphanum || c == '_'

/-- The character that a letter behind a backslash stands for. -/
def unescapeChar? (c : Char) : Option Char :=
  if c = 'n' then some '\n'
  else if c = 't' then some '\t'
  else if c = '\\' ∨ c = '"' ∨ c = '\'' then some c
  else none

/-- The place in front of the character that ends at `place`, as far as its line is known. -/
def before (place : Position) : Position := ⟨place.line, place.column - 1⟩

/-- A string from behind its opening quote, which stands at `opened`, to its closing quote. -/
def stringTail (quote : Char) (opened : Position) :
    Position → List Char → Except Refusal (List Char × Cursor)
  | _, [] => .error ⟨opened, .openString⟩
  | place, c :: cs =>
    if c = quote then .ok ([], ⟨place.after c, cs⟩)
    else if c = '\\' then
      match cs with
      | [] => .error ⟨opened, .openString⟩
      | e :: rest =>
        let behind := (place.after c).after e
        match unescapeChar? e with
        | some e => (stringTail quote opened behind rest).map fun (s, next) => (e :: s, next)
        | none => .error ⟨before behind, .unknownEscape e⟩
    else (stringTail quote opened (place.after c) cs).map fun (s, next) => (c :: s, next)

/-- The integer of a text of digits with an optional minus sign. -/
def number (place : Position) (text : List Char) : Except Refusal Token :=
  match Numeral.int64? text with
  | some value => .ok (.number value)
  | none => .error ⟨place, .outOfRange (String.ofList text)⟩

/-- The token that starts with `c`, which stands at `place` and in front of `cs`. -/
def token (place : Position) (c : Char) (cs : List Char) : Except Refusal (Token × Cursor) :=
  let behind := place.after c
  match Mark.ofChar? c with
  | some m => .ok (.mark m, ⟨behind, cs⟩)
  | none =>
    if c = '"' ∨ c = '\'' then
      (stringTail c place behind cs).map fun (s, next) => (.string (String.ofList s), next)
    else if c = '-' then
      let digits := cs.takeWhile Char.isDigit
      if digits.isEmpty then .error ⟨place, .loneMinus⟩
      else (number place (c :: digits)).map
        (·, .advance behind digits (cs.dropWhile Char.isDigit))
    else if c.isDigit then
      let digits := cs.takeWhile Char.isDigit
      (number place (c :: digits)).map (·, .advance behind digits (cs.dropWhile Char.isDigit))
    else if isWordStart c then
      let part := cs.takeWhile isWordPart
      .ok (.word (String.ofList (c :: part)), .advance behind part (cs.dropWhile isWordPart))
    else .error ⟨place, .unexpectedChar c⟩

theorem map_eq_ok {ε α β : Type} {f : α → β} {x : Except ε α} {b : β} :
    x.map f = .ok b ↔ ∃ a, x = .ok a ∧ f a = b := by
  cases x <;> simp [Except.map]

theorem length_stringTail_lt {quote : Char} {opened place : Position} {cs s : List Char}
    {next : Cursor} (h : stringTail quote opened place cs = .ok (s, next)) :
    next.rest.length < cs.length := by
  fun_induction stringTail quote opened place cs generalizing s next with
  | case1 => cases h
  | case2 place cs => cases h; simp
  | case3 => cases h
  | case4 =>
    rename_i ih
    obtain ⟨⟨s', next'⟩, hs, heq⟩ := map_eq_ok.1 h
    cases heq
    have := ih hs
    simp only [List.length_cons]
    omega
  | case5 => cases h
  | case6 place c cs _ _ ih =>
    obtain ⟨⟨s', next'⟩, hs, heq⟩ := map_eq_ok.1 h
    cases heq
    have := ih hs
    simp only [List.length_cons]
    omega

theorem length_token_le {place : Position} {c : Char} {cs : List Char} {t : Token}
    {next : Cursor} (h : token place c cs = .ok (t, next)) : next.rest.length ≤ cs.length := by
  have drop (p : Char → Bool) : (cs.dropWhile p).length ≤ cs.length :=
    (List.dropWhile_sublist p).length_le
  unfold token at h
  split at h
  · cases h; exact Nat.le_refl _
  · split at h
    · obtain ⟨⟨s, next'⟩, hs, heq⟩ := map_eq_ok.1 h
      cases heq
      exact Nat.le_of_lt (length_stringTail_lt hs)
    · split at h
      · dsimp only at h
        split at h
        · cases h
        · obtain ⟨_, _, heq⟩ := map_eq_ok.1 h
          cases heq
          exact drop _
      · split at h
        · obtain ⟨_, _, heq⟩ := map_eq_ok.1 h
          cases heq
          exact drop _
        · split at h
          · cases h
            exact drop _
          · cases h

end Lexer

/-- The tokens of a text, and the place behind it. -/
structure Lexed where
  lexemes : List Lexeme
  finish : Position
deriving DecidableEq, Repr

namespace Lexer

set_option linter.unusedVariables false in
/-- Reads the tokens from a place on. -/
def lexFrom (start : Cursor) : Except Refusal Lexed :=
  match hskip : Cursor.skipTrivia false start.place start.rest with
  | ⟨place, []⟩ => .ok ⟨[], place⟩
  | ⟨place, c :: cs⟩ =>
    match htoken : token place c cs with
    | .error refusal => .error refusal
    | .ok (t, next) => (lexFrom next).map fun more => ⟨⟨t, place⟩ :: more.lexemes, more.finish⟩
termination_by start.rest.length
decreasing_by
  have hs := Cursor.length_skipTrivia_le false start.place start.rest
  rw [hskip] at hs
  have := length_token_le htoken
  simp only [List.length_cons] at hs
  omega

end Lexer

/-- Reads the tokens of a text. -/
def lex (text : String) : Except Refusal Lexed := Lexer.lexFrom ⟨.start, text.toList⟩

end BagQuery
