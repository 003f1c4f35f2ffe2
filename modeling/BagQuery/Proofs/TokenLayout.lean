import BagQuery.Program.Lexer
import Mathlib.Data.List.Chain

/-!
# How a text may be laid out

The texts that a list of tokens may be written as, and the place of every token in them.  Nothing
is read here.

* `Token.Spelled`: a word and an integer have one spelling; a string has a choice of quotes, and
  of escapes for some of its characters.
* `Trivia`: what may stand between tokens.  A comment at the end of the text need not be closed
  (`Trailing`).
* `Layout`: tokens, each behind its trivia.  Only two tokens that would run together need
  trivia between them (`Token.RunTogether`).
* `Text.Position.behind`: a place by counting, without moving over the text.
-/

namespace BagQuery

open Text

/-- The place behind a text: the lines that are ended in it, and the characters since. -/
def Text.Position.behind (cs : List Char) : Position :=
  ⟨1 + cs.count '\n', 1 + (cs.reverse.takeWhile (· ≠ '\n')).length⟩

/-! ## Spellings -/

/-- An ASCII letter or the underscore. -/
def IsLetter (c : Char) : Prop := 'A' ≤ c ∧ c ≤ 'Z' ∨ 'a' ≤ c ∧ c ≤ 'z' ∨ c = '_'

/-- A letter, then letters and ASCII digits. -/
def IsWord : List Char → Prop
  | [] => False
  | c :: cs => IsLetter c ∧ ∀ d ∈ cs, IsLetter d ∨ '0' ≤ d ∧ d ≤ '9'

/-- A character of a string, as it is written between quotes. -/
inductive Quoted (quote : Char) : Char → List Char → Prop
  | raw {c : Char} (hquote : c ≠ quote) (hbackslash : c ≠ '\\') : Quoted quote c [c]
  | backslash : Quoted quote '\\' ['\\', '\\']
  | doubleQuote : Quoted quote '"' ['\\', '"']
  | singleQuote : Quoted quote '\'' ['\\', '\'']
  | newline : Quoted quote '\n' ['\\', 'n']
  | tab : Quoted quote '\t' ['\\', 't']

/-- The characters of a string, as they are written between quotes. -/
inductive QuotedAll (quote : Char) : List Char → List Char → Prop
  | nil : QuotedAll quote [] []
  | cons {c : Char} {cs text body : List Char} (hc : Quoted quote c text)
      (hcs : QuotedAll quote cs body) : QuotedAll quote (c :: cs) (text ++ body)

/-- How a token is written. -/
inductive Token.Spelled : Token → List Char → Prop
  | word {cs : List Char} (hcs : IsWord cs) : Spelled (.word (String.ofList cs)) cs
  | number (value : Int64) : Spelled (.number value) (toString value).toList
  | string {quote : Char} {cs body : List Char} (hquote : quote = '"' ∨ quote = '\'')
      (hcs : QuotedAll quote cs body) :
      Spelled (.string (String.ofList cs)) (quote :: (body ++ [quote]))
  | mark (m : Mark) : Spelled (.mark m) [m.char]

/-- A word is spelled as one; any integer, string and mark is a token. -/
def Token.WellFormed : Token → Prop
  | .word text => IsWord text.toList
  | _ => True

theorem exists_quoted {quote : Char} (hquote : quote = '"' ∨ quote = '\'') (c : Char) :
    ∃ text, Quoted quote c text := by
  by_cases hbackslash : c = '\\'
  · subst hbackslash
    exact ⟨_, .backslash⟩
  by_cases hc : c = quote
  · rcases hquote with rfl | rfl <;> subst hc
    · exact ⟨_, .doubleQuote⟩
    · exact ⟨_, .singleQuote⟩
  · exact ⟨_, .raw hc hbackslash⟩

theorem exists_quotedAll {quote : Char} (hquote : quote = '"' ∨ quote = '\'') (cs : List Char) :
    ∃ body, QuotedAll quote cs body := by
  induction cs with
  | nil => exact ⟨[], .nil⟩
  | cons c cs ih =>
    obtain ⟨text, htext⟩ := exists_quoted hquote c
    obtain ⟨body, hbody⟩ := ih
    exact ⟨text ++ body, .cons htext hbody⟩

theorem Token.exists_spelled {t : Token} (h : t.WellFormed) : ∃ text, t.Spelled text := by
  cases t with
  | word word =>
    have hspelled := Spelled.word h
    rw [String.ofList_toList] at hspelled
    exact ⟨_, hspelled⟩
  | number value => exact ⟨_, .number value⟩
  | string value =>
    obtain ⟨body, hbody⟩ := exists_quotedAll (Or.inl rfl : '"' = '"' ∨ _) value.toList
    have hspelled := Spelled.string (Or.inl rfl) hbody
    rw [String.ofList_toList] at hspelled
    exact ⟨_, hspelled⟩
  | mark m => exact ⟨_, .mark m⟩

/-! ## Trivia -/

/-- Blanks and closed comments. -/
inductive Trivia : List Char → Prop
  | nil : Trivia []
  | blank {c : Char} {cs : List Char} (hc : isBlank c = true) (hcs : Trivia cs) : Trivia (c :: cs)
  | comment {body cs : List Char} (hbody : '\n' ∉ body) (hcs : Trivia cs) :
      Trivia ('-' :: '-' :: (body ++ '\n' :: cs))

/-- What may stand behind the last token: the last comment may be open. -/
inductive Trailing : List Char → Prop
  | closed {cs : List Char} (hcs : Trivia cs) : Trailing cs
  | opened {cs body : List Char} (hcs : Trivia cs) (hbody : '\n' ∉ body) :
      Trailing (cs ++ '-' :: '-' :: body)

/-! ## Layouts -/

/-- The first token would go on with what the second one starts with. -/
def Token.RunTogether : Token → Token → Prop
  | .word _, .word _ => True
  | .word _, .number value => 0 ≤ value
  | .number _, .number value => 0 ≤ value
  | _, _ => False

/-- A token as it is written, behind a gap. -/
structure Piece where
  gap : List Char
  token : Token
  text : List Char
  trivia : Trivia gap
  spelled : token.Spelled text

/-- The text of some pieces. -/
def Piece.chars (pieces : List Piece) : List Char := pieces.flatMap fun p => p.gap ++ p.text

/-- A way to write some tokens as a text. -/
structure Layout where
  pieces : List Piece
  tail : List Char
  apart : pieces.IsChain fun p q => p.token.RunTogether q.token → q.gap ≠ []
  trailing : Trailing tail

namespace Layout

/-- The tokens that are written. -/
def tokens (l : Layout) : List Token := l.pieces.map Piece.token

/-- The text that they are written as. -/
def chars (l : Layout) : List Char := Piece.chars l.pieces ++ l.tail

/-- The tokens of some pieces that stand behind a text, each with the place of its first
character. -/
def lexemesBehind : List Char → List Piece → List Lexeme
  | _, [] => []
  | front, p :: ps =>
    ⟨p.token, .behind (front ++ p.gap)⟩ :: lexemesBehind (front ++ p.gap ++ p.text) ps

/-- The tokens and the end of the text, with their places. -/
def lexed (l : Layout) : Lexed := ⟨lexemesBehind [] l.pieces, .behind l.chars⟩

theorem tokens_lexemesBehind (front : List Char) (pieces : List Piece) :
    (lexemesBehind front pieces).map Lexeme.token = pieces.map Piece.token := by
  induction pieces generalizing front with
  | nil => rfl
  | cons p ps ih => rw [lexemesBehind, List.map_cons, List.map_cons, ih]

/-- Any tokens can be written, with a blank in front of each. -/
theorem exists_tokens {ts : List Token} (h : ∀ t ∈ ts, t.WellFormed) :
    ∃ l : Layout, l.tokens = ts := by
  have hpieces : ∃ pieces : List Piece,
      pieces.map Piece.token = ts ∧ ∀ p ∈ pieces, p.gap ≠ [] := by
    induction ts with
    | nil => exact ⟨[], rfl, nofun⟩
    | cons t ts ih =>
      obtain ⟨text, htext⟩ := Token.exists_spelled (h t List.mem_cons_self)
      obtain ⟨pieces, rfl, hgap⟩ := ih fun u hu => h u (List.mem_cons_of_mem t hu)
      exact ⟨⟨[' '], t, text, .blank rfl .nil, htext⟩ :: pieces, rfl,
        List.forall_mem_cons.2 ⟨List.cons_ne_nil _ _, hgap⟩⟩
  obtain ⟨pieces, htokens, hgap⟩ := hpieces
  have hapart := List.pairwise_of_forall_mem_list fun p _ q hq (_ : p.token.RunTogether q.token) =>
    hgap q hq
  exact ⟨⟨pieces, [], hapart.isChain, .closed .nil⟩, htokens⟩

end Layout

end BagQuery
