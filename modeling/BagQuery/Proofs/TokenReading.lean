import BagQuery.Proofs.DecimalText
import BagQuery.Proofs.GrammarReading
import BagQuery.Proofs.TextLines
import BagQuery.Proofs.TokenLayout
import Mathlib.Data.List.Induction

/-!
# Tokens are read as they are laid out

`Layout.lexes_exactly`: the tokens of a layout are read from its text, each at its place.

* Trivia is skipped up to the next token and no further (`skipTrivia_trivia`,
  `skipTrivia_spelled`).
* A token is read from its spelling whatever stands behind it, if it does not go on with that
  (`token_spelled`).  It never goes on with trivia, and goes on with the next token only if the two
  run together (`Token.runTogether_of_goesOnWith`).
* So each piece of a layout gives its token (`lexFrom_piece`), and all pieces theirs by induction
  (`lexFrom_pieces`).  What the induction carries along is the text in front.
-/

namespace BagQuery

open Text

variable {place : Position} {c : Char} {cs gap rest text : List Char}

/-! ## Places -/

namespace Text.Position

theorem afterAll_cons (p : Position) (c : Char) (cs : List Char) :
    p.afterAll (c :: cs) = (p.after c).afterAll cs := rfl

theorem start_afterAll (cs : List Char) : start.afterAll cs = behind cs := by
  induction cs using List.reverseRecOn with
  | nil => rfl
  | append_singleton cs c ih =>
    rw [afterAll_append, ih, afterAll, List.foldl_cons, List.foldl_nil, after, behind, behind,
      List.count_append, List.reverse_append, List.reverse_singleton, List.singleton_append,
      List.takeWhile_cons]
    by_cases hc : c = '\n' <;> simp [hc, Nat.add_assoc]

theorem behind_afterAll (front cs : List Char) :
    (behind front).afterAll cs = behind (front ++ cs) := by
  rw [← start_afterAll, ← start_afterAll, afterAll_append]

end Text.Position

namespace Lexer

/-! ## Classes of characters -/

theorem isWordStart_iff : isWordStart c = true ↔ IsLetter c := by
  rw [isWordStart, Bool.or_eq_true, isAlpha_iff, beq_iff_eq, or_assoc, IsLetter]

theorem isWordPart_iff_or : isWordPart c = true ↔ isWordStart c = true ∨ c.isDigit = true := by
  simp only [isWordPart, isWordStart, Char.isAlphanum, Bool.or_eq_true]
  exact or_right_comm

theorem isWordPart_of_isWordStart (hc : isWordStart c = true) : isWordPart c = true :=
  isWordPart_iff_or.2 (Or.inl hc)

theorem isWordPart_of_isDigit (hc : c.isDigit = true) : isWordPart c = true :=
  isWordPart_iff_or.2 (Or.inr hc)

theorem isWordPart_iff : isWordPart c = true ↔ IsLetter c ∨ '0' ≤ c ∧ c ≤ '9' := by
  rw [isWordPart_iff_or, isWordStart_iff, isDigit_iff]

theorem isWord_cons_iff :
    IsWord (c :: cs) ↔ isWordStart c = true ∧ ∀ d ∈ cs, isWordPart d = true := by
  simp only [IsWord, isWordStart_iff, isWordPart_iff]

theorem isDigit_eq_false_of_isWordStart (hc : isWordStart c = true) : c.isDigit = false := by
  rw [Bool.eq_false_iff]
  intro hdigit
  rw [isWordStart_iff, IsLetter] at hc
  rw [isDigit_iff] at hdigit
  rcases hc with ⟨h, -⟩ | ⟨h, -⟩ | rfl
  · exact absurd (Char.le_trans h hdigit.2) (by decide)
  · exact absurd (Char.le_trans h hdigit.2) (by decide)
  · exact absurd hdigit.2 (by decide)

theorem isBlank_eq_false_of_isWordPart (hc : isWordPart c = true) : isBlank c = false := by
  rw [isWordPart, Bool.or_eq_true, beq_iff_eq] at hc
  rcases hc with hc | rfl
  · exact isBlank_eq_false_of_isAlphanum hc
  · rfl

theorem isWordPart_mark (m : Mark) : isWordPart m.char = false := by cases m <;> rfl

theorem mark?_eq_none_of_isWordPart (hc : isWordPart c = true) : Mark.ofChar? c = none := by
  refine List.find?_eq_none.2 fun m _ hm => ?_
  rw [← beq_iff_eq.1 hm, isWordPart_mark] at hc
  cases hc

/-! ## Trivia -/

theorem skipTrivia_comment {body : List Char} (hbody : '\n' ∉ body) :
    Cursor.skipTrivia true place (body ++ rest) =
      Cursor.skipTrivia true (place.afterAll body) rest := by
  induction body generalizing place with
  | nil => rfl
  | cons c body ih =>
    obtain ⟨hc, hbody⟩ := not_or.1 (List.mem_cons.not.1 hbody)
    rw [List.cons_append, Cursor.skipTrivia_inComment, bne_iff_ne.2 (Ne.symm hc), ih hbody,
      Position.afterAll_cons]

theorem skipTrivia_trivia (hgap : Trivia gap) :
    Cursor.skipTrivia false place (gap ++ rest) =
      Cursor.skipTrivia false (place.afterAll gap) rest := by
  induction hgap generalizing place with
  | nil => rfl
  | blank hc hcs ih =>
    rw [List.cons_append, Cursor.skipTrivia_cons, if_pos hc, ih, Position.afterAll_cons]
    rintro rfl
    cases hc
  | comment hbody hcs ih =>
    rw [List.cons_append, List.cons_append, List.append_assoc, List.cons_append,
      Cursor.skipTrivia_opening, skipTrivia_comment hbody, Cursor.skipTrivia_inComment,
      bne_self_eq_false, ih, Position.afterAll_cons, Position.afterAll_cons,
      Position.afterAll_append, Position.afterAll_cons]

theorem skipTrivia_trailing (htail : Trailing cs) :
    Cursor.skipTrivia false place cs = ⟨place.afterAll cs, []⟩ := by
  cases htail with
  | closed hcs =>
    rw [← List.append_nil cs, skipTrivia_trivia hcs, List.append_nil, Cursor.skipTrivia_nil]
  | @opened cs body hcs hbody =>
    -- the comment ends with the text, so nothing is left behind its body
    rw [skipTrivia_trivia hcs, Cursor.skipTrivia_opening, ← List.append_nil body,
      skipTrivia_comment hbody, List.append_nil, Cursor.skipTrivia_nil, Position.afterAll_append,
      Position.afterAll_cons, Position.afterAll_cons]

theorem skipTrivia_stop (hc : isBlank c = false) (hminus : c = '-' → cs.head? ≠ some '-') :
    Cursor.skipTrivia false place (c :: cs) = ⟨place, c :: cs⟩ := by
  rw [Cursor.skipTrivia_cons hminus, hc, if_neg Bool.false_ne_true]

/-! ## Integers -/

theorem number_toString (value : Int64) :
    number place (toString value).toList = .ok (.number value) := by
  rw [number, ← Numeral.ofInt64_eq_toString, Numeral.int64?_ofInt64]

theorem toString_toInt (value : Int64) :
    (toString value).toList = Numeral.intChars value.toInt :=
  (Numeral.intChars_eq_toString value.toInt).symm

theorem digits_cons (n : Nat) :
    ∃ c cs, Numeral.digits 10 n = c :: cs ∧ ∀ d ∈ c :: cs, d.isDigit = true := by
  obtain ⟨c, cs, h⟩ := List.exists_cons_of_ne_nil (Numeral.digits_ne_nil 10 n)
  exact ⟨c, cs, h, fun d hd => Numeral.isDigit_of_mem_digits (h ▸ hd)⟩

/-- An integer from zero on is digits, and one below zero is digits behind a minus sign. -/
theorem toString_cases (value : Int64) :
    (0 ≤ value ∧ ∃ c cs, (toString value).toList = c :: cs ∧ ∀ d ∈ c :: cs, d.isDigit = true) ∨
      ∃ c cs, (toString value).toList = '-' :: c :: cs ∧ ∀ d ∈ c :: cs, d.isDigit = true := by
  rw [toString_toInt, Int64.le_iff_toInt_le]
  cases value.toInt with
  | ofNat n => exact Or.inl ⟨Int.natCast_nonneg n, digits_cons n⟩
  | negSucc n =>
    obtain ⟨c, cs, h, hall⟩ := digits_cons (n + 1)
    exact Or.inr ⟨c, cs, by rw [Numeral.intChars, h], hall⟩

/-! ## Strings -/

/-- A character stands between quotes as it is, or as an escape of it. -/
theorem raw_or_escaped {quote : Char} (h : Quoted quote c text) :
    (text = [c] ∧ c ≠ quote ∧ c ≠ '\\') ∨
      ∃ e, text = ['\\', e] ∧ unescapeChar? e = some c := by
  cases h with
  | raw hquote hbackslash => exact Or.inl ⟨rfl, hquote, hbackslash⟩
  | backslash => exact Or.inr ⟨'\\', rfl, rfl⟩
  | doubleQuote => exact Or.inr ⟨'"', rfl, rfl⟩
  | singleQuote => exact Or.inr ⟨'\'', rfl, rfl⟩
  | newline => exact Or.inr ⟨'n', rfl, rfl⟩
  | tab => exact Or.inr ⟨'t', rfl, rfl⟩

theorem stringTail_quotedAll {quote : Char} {opened : Position} {body : List Char}
    (hquote : quote ≠ '\\') (h : QuotedAll quote cs body) :
    stringTail quote opened place (body ++ quote :: rest) =
      .ok (cs, ⟨(place.afterAll body).after quote, rest⟩) := by
  -- an escape starts with a backslash, which is not the quote, so it never closes the string
  induction h generalizing place with
  | nil =>
    rw [List.nil_append, stringTail.eq_def]
    exact if_pos rfl
  | cons hc hcs ih =>
    rcases raw_or_escaped hc with ⟨rfl, hcquote, hcbackslash⟩ | ⟨e, rfl, he⟩
    · rw [List.append_assoc, List.singleton_append, stringTail.eq_def]
      dsimp only
      rw [if_neg hcquote, if_neg hcbackslash, ih]
      rfl
    · rw [List.append_assoc, List.cons_append, List.singleton_append, stringTail.eq_def]
      dsimp only
      rw [if_neg hquote.symm, if_pos rfl, he]
      dsimp only
      rw [ih]
      rfl

/-! ## Single tokens -/

theorem token_word (hc : isWordStart c = true) (hcs : ∀ d ∈ cs, isWordPart d = true)
    (hrest : ∀ d ∈ rest.head?, isWordPart d = false) :
    token place c (cs ++ rest) =
      .ok (.word (String.ofList (c :: cs)), .advance (place.after c) cs rest) := by
  have hquote : ¬(c = '"' ∨ c = '\'') := by rintro (rfl | rfl) <;> cases hc
  have hminus : c ≠ '-' := by rintro rfl; cases hc
  have hdigit : ¬c.isDigit = true := Bool.not_eq_true _ ▸ isDigit_eq_false_of_isWordStart hc
  rw [token, mark?_eq_none_of_isWordPart (isWordPart_of_isWordStart hc)]
  dsimp only
  rw [if_neg hquote, if_neg hminus, if_neg hdigit, if_pos hc, takeWhile_append_stop hcs hrest,
    dropWhile_append_stop hcs hrest]

theorem token_digits {value : Int64} (hvalue : (toString value).toList = c :: cs)
    (hall : ∀ d ∈ c :: cs, d.isDigit = true) (hrest : ∀ d ∈ rest.head?, d.isDigit = false) :
    token place c (cs ++ rest) = .ok (.number value, .advance (place.after c) cs rest) := by
  have hc : c.isDigit = true := hall c List.mem_cons_self
  have hcs : ∀ d ∈ cs, d.isDigit = true := fun d hd => hall d (List.mem_cons_of_mem c hd)
  have hquote : ¬(c = '"' ∨ c = '\'') := by rintro (rfl | rfl) <;> cases hc
  have hminus : c ≠ '-' := by rintro rfl; cases hc
  rw [token, mark?_eq_none_of_isWordPart (isWordPart_of_isDigit hc)]
  dsimp only
  rw [if_neg hquote, if_neg hminus, if_pos hc, takeWhile_append_stop hcs hrest,
    dropWhile_append_stop hcs hrest, ← hvalue, number_toString]
  rfl

theorem token_minus {value : Int64} (hvalue : (toString value).toList = '-' :: c :: cs)
    (hall : ∀ d ∈ c :: cs, d.isDigit = true) (hrest : ∀ d ∈ rest.head?, d.isDigit = false) :
    token place '-' (c :: cs ++ rest) =
      .ok (.number value, .advance (place.after '-') (c :: cs) rest) := by
  rw [token, show Mark.ofChar? '-' = none from rfl]
  dsimp only
  rw [if_neg (by decide), if_pos rfl, takeWhile_append_stop hall hrest,
    dropWhile_append_stop hall hrest, List.isEmpty_cons, if_neg Bool.false_ne_true, ← hvalue,
    number_toString]
  rfl

theorem token_string {quote : Char} {body : List Char} (hquote : quote = '"' ∨ quote = '\'')
    (h : QuotedAll quote cs body) :
    token place quote (body ++ quote :: rest) =
      .ok (.string (String.ofList cs),
        ⟨((place.after quote).afterAll body).after quote, rest⟩) := by
  have hmark : Mark.ofChar? quote = none := by rcases hquote with rfl | rfl <;> rfl
  have hbackslash : quote ≠ '\\' := by rcases hquote with rfl | rfl <;> decide
  rw [token, hmark]
  dsimp only
  rw [if_pos hquote, stringTail_quotedAll hbackslash h]
  rfl

theorem token_mark (m : Mark) :
    token place m.char rest = .ok (.mark m, ⟨place.after m.char, rest⟩) := by
  rw [token, Mark.ofChar?_char]

end Lexer

/-- The characters that a token goes on with. -/
def Token.goesOnWith : Token → Char → Bool
  | .word _, c => Lexer.isWordPart c
  | .number _, c => c.isDigit
  | .string _, _ => false
  | .mark _, _ => false

namespace Lexer

theorem token_spelled {t : Token} (h : t.Spelled (c :: cs))
    (hrest : ∀ d ∈ rest.head?, t.goesOnWith d = false) :
    token place c (cs ++ rest) = .ok (t, .advance (place.after c) cs rest) := by
  generalize htext : c :: cs = text at h
  cases h with
  | word hword =>
    subst htext
    obtain ⟨hc, hcs⟩ := isWord_cons_iff.1 hword
    exact token_word hc hcs hrest
  | number value =>
    rcases toString_cases value with ⟨-, d, ds, hvalue, hall⟩ | ⟨d, ds, hvalue, hall⟩
    · cases htext.trans hvalue
      exact token_digits hvalue hall hrest
    · cases htext.trans hvalue
      exact token_minus hvalue hall hrest
  | string hquote hbody =>
    cases htext
    rw [List.append_assoc, List.singleton_append, token_string hquote hbody, Cursor.advance,
      Position.afterAll_append]
    rfl
  | mark m =>
    cases htext
    exact token_mark m

/-- Nothing is skipped where a token starts: it is no blank, and no comment either, because a minus
sign stands in front of a digit. -/
theorem skipTrivia_spelled {t : Token} (h : t.Spelled (c :: cs)) :
    Cursor.skipTrivia false place (c :: (cs ++ rest)) = ⟨place, c :: (cs ++ rest)⟩ := by
  generalize htext : c :: cs = text at h
  cases h with
  | word hword =>
    subst htext
    have hpart : isWordPart c = true := isWordPart_of_isWordStart (isWord_cons_iff.1 hword).1
    refine skipTrivia_stop (isBlank_eq_false_of_isWordPart hpart) ?_
    rintro rfl
    cases hpart
  | number value =>
    rcases toString_cases value with ⟨-, d, ds, hvalue, hall⟩ | ⟨d, ds, hvalue, hall⟩
    · cases htext.trans hvalue
      have hc : c.isDigit = true := hall c List.mem_cons_self
      refine skipTrivia_stop (isBlank_eq_false_of_isDigit hc) ?_
      rintro rfl
      cases hc
    · cases htext.trans hvalue
      have hd : d.isDigit = true := hall d List.mem_cons_self
      refine skipTrivia_stop rfl fun _ h => ?_
      cases Option.some.inj h
      cases hd
  | string hquote hbody =>
    cases htext
    rcases hquote with rfl | rfl
    · exact skipTrivia_stop rfl nofun
    · exact skipTrivia_stop rfl nofun
  | mark m =>
    cases htext
    exact skipTrivia_stop (by cases m <;> rfl) (by cases m <;> nofun)

end Lexer

/-! ## What a token goes on with -/

theorem Trivia.head (h : Trivia (c :: cs)) : isBlank c = true ∨ c = '-' := by
  cases h with
  | blank hc => exact Or.inl hc
  | comment => exact Or.inr rfl

theorem Trailing.head (h : Trailing (c :: cs)) : isBlank c = true ∨ c = '-' := by
  generalize htail : c :: cs = tail at h
  cases h with
  | closed h => exact (htail ▸ h).head
  | @opened front body h =>
    cases front with
    | nil => exact Or.inr (List.cons.inj htail).1
    | cons d front => exact (List.cons.inj htail).1 ▸ h.head

namespace Token

open Lexer

theorem Spelled.ne_nil {t : Token} (h : t.Spelled text) : text ≠ [] := by
  cases h with
  | word hword => rintro rfl; exact hword
  | number value =>
    rcases toString_cases value with ⟨-, _, _, h, -⟩ | ⟨_, _, h, -⟩
    · exact h ▸ List.cons_ne_nil _ _
    · exact h ▸ List.cons_ne_nil _ _
  | string => exact List.cons_ne_nil _ _
  | mark => exact List.cons_ne_nil _ _

theorem isWordPart_of_goesOnWith {t : Token} (h : t.goesOnWith c = true) :
    isWordPart c = true := by
  cases t with
  | word => exact h
  | number => exact isWordPart_of_isDigit h
  | string => cases h
  | mark => cases h

theorem goesOnWith_trivia {t : Token} (hc : isBlank c = true ∨ c = '-') :
    t.goesOnWith c = false := by
  rw [Bool.eq_false_iff]
  intro h
  have hpart := isWordPart_of_goesOnWith h
  rcases hc with hc | rfl
  · rw [isBlank_eq_false_of_isWordPart hpart] at hc
    cases hc
  · cases hpart

theorem runTogether_of_goesOnWith {t u : Token} (hu : u.Spelled (c :: cs))
    (h : t.goesOnWith c = true) : t.RunTogether u := by
  have hpart := isWordPart_of_goesOnWith h
  generalize htext : c :: cs = text at hu
  cases hu with
  | word hword =>
    subst htext
    cases t with
    | word => trivial
    | number =>
      rw [goesOnWith, isDigit_eq_false_of_isWordStart (isWord_cons_iff.1 hword).1] at h
      cases h
    | string => cases h
    | mark => cases h
  | number value =>
    have hvalue : 0 ≤ value := by
      rcases toString_cases value with ⟨hvalue, -⟩ | ⟨d, ds, hminus, -⟩
      · exact hvalue
      · cases htext.trans hminus
        cases hpart
    cases t with
    | word => exact hvalue
    | number => exact hvalue
    | string => cases h
    | mark => cases h
  | string hquote hbody =>
    cases htext
    rcases hquote with rfl | rfl <;> cases hpart
  | mark m =>
    cases htext
    rw [isWordPart_mark] at hpart
    cases hpart

end Token

/-- No piece of a layout goes on with what stands behind it. -/
theorem Piece.goesOnWith_head {p : Piece} {ps : List Piece} {tail : List Char}
    (hapart : (p :: ps).IsChain fun p q => p.token.RunTogether q.token → q.gap ≠ [])
    (htail : Trailing tail) :
    ∀ d ∈ (Piece.chars ps ++ tail).head?, p.token.goesOnWith d = false := by
  intro d hd
  cases ps with
  | nil =>
    cases tail with
    | nil => cases hd
    | cons c cs =>
      cases Option.some.inj hd
      exact Token.goesOnWith_trivia htail.head
  | cons q qs =>
    have hpq := (List.isChain_cons_cons.1 hapart).1
    rw [Piece.chars, List.flatMap_cons, List.append_assoc, List.append_assoc] at hd
    -- only without a gap does the next token itself stand behind this one
    cases hgap : q.gap with
    | cons c cs =>
      rw [hgap] at hd
      cases Option.some.inj hd
      exact Token.goesOnWith_trivia (hgap ▸ q.trivia).head
    | nil =>
      obtain ⟨c, cs, htext⟩ := List.exists_cons_of_ne_nil q.spelled.ne_nil
      rw [hgap, htext] at hd
      cases Option.some.inj hd
      rw [Bool.eq_false_iff]
      exact fun h => hpq (Token.runTogether_of_goesOnWith (htext ▸ q.spelled) h) hgap

/-! ## Whole texts -/

namespace Lexer

theorem lexFrom_eq_of_token {start next : Cursor} {t : Token}
    (hskip : Cursor.skipTrivia false start.place start.rest = ⟨place, c :: cs⟩)
    (htoken : token place c cs = .ok (t, next)) :
    lexFrom start =
      (lexFrom next).map fun more => ⟨⟨t, place⟩ :: more.lexemes, more.finish⟩ := by
  rw [lexFrom]
  split
  · rename_i h
    cases hskip.symm.trans h
  · rename_i h
    cases hskip.symm.trans h
    split
    · rename_i h
      cases htoken.symm.trans h
    · rename_i h
      cases htoken.symm.trans h
      rfl

theorem lexFrom_eq_of_nil {start : Cursor}
    (hskip : Cursor.skipTrivia false start.place start.rest = ⟨place, []⟩) :
    lexFrom start = .ok ⟨[], place⟩ := by
  rw [lexFrom]
  split
  · rename_i h
    cases hskip.symm.trans h
    rfl
  · rename_i h
    cases hskip.symm.trans h

theorem lexFrom_piece (front : List Char) (p : Piece)
    (hrest : ∀ d ∈ rest.head?, p.token.goesOnWith d = false) :
    lexFrom ⟨.behind front, p.gap ++ (p.text ++ rest)⟩ =
      (lexFrom ⟨.behind (front ++ p.gap ++ p.text), rest⟩).map fun more =>
        ⟨⟨p.token, .behind (front ++ p.gap)⟩ :: more.lexemes, more.finish⟩ := by
  obtain ⟨c, cs, htext⟩ := List.exists_cons_of_ne_nil p.spelled.ne_nil
  have hspelled := p.spelled
  rw [htext] at hspelled ⊢
  have hskip : Cursor.skipTrivia false (.behind front) (p.gap ++ (c :: cs ++ rest)) =
      ⟨.behind (front ++ p.gap), c :: (cs ++ rest)⟩ := by
    rw [skipTrivia_trivia p.trivia, Position.behind_afterAll, List.cons_append,
      skipTrivia_spelled hspelled]
  have htoken : token (.behind (front ++ p.gap)) c (cs ++ rest) =
      .ok (p.token, ⟨.behind (front ++ p.gap ++ c :: cs), rest⟩) := by
    rw [token_spelled hspelled hrest, Cursor.advance, ← Position.afterAll_cons,
      Position.behind_afterAll]
  exact lexFrom_eq_of_token hskip htoken

theorem lexFrom_pieces {pieces : List Piece} {tail : List Char}
    (hapart : pieces.IsChain fun p q => p.token.RunTogether q.token → q.gap ≠ [])
    (htail : Trailing tail) (front : List Char) :
    lexFrom ⟨.behind front, Piece.chars pieces ++ tail⟩ =
      .ok ⟨Layout.lexemesBehind front pieces, .behind (front ++ (Piece.chars pieces ++ tail))⟩ := by
  induction pieces generalizing front with
  | nil =>
    rw [← Position.behind_afterAll]
    exact lexFrom_eq_of_nil (skipTrivia_trailing htail)
  | cons p ps ih =>
    have hrest := Piece.goesOnWith_head hapart htail
    rw [Piece.chars, List.flatMap_cons, ← Piece.chars, List.append_assoc, List.append_assoc,
      lexFrom_piece front p hrest, ih hapart.tail, Layout.lexemesBehind]
    simp only [Except.map, List.append_assoc]

end Lexer

namespace Layout

/-- **Lexing undoes writing.**  However tokens are laid out, exactly these tokens are read from the
text, in order, each with the place of its first character, and then the end of the text.  A token
is a keyword if and only if it is the word that the keyword is spelled as. -/
theorem lexes_exactly (l : Layout) :
    lex (String.ofList l.chars) = .ok l.lexed ∧ l.lexed.tokens = l.tokens ∧
      ∀ lexeme ∈ l.lexed.lexemes, ∀ k,
        lexeme.token.keyword? = some k ↔ lexeme.token = k.token := by
  refine ⟨?_, tokens_lexemesBehind [] l.pieces, ?_⟩
  · rw [lex, String.toList_ofList]
    exact Lexer.lexFrom_pieces l.apart l.trailing []
  · intro lexeme _ k
    exact Parser.token_keyword?_eq_some_iff

/-- Six tokens with no more trivia than they need: a minus sign ends a word, a comment and a newline
in a string move the lines on, and the last comment is open. -/
def crowded : Layout where
  pieces := [
    ⟨[], .word (String.ofList ['L', 'O', 'A', 'D']), _, .nil,
      .word (Lexer.isWord_cons_iff.2 ⟨rfl, List.all_eq_true.1 rfl⟩)⟩,
    ⟨[], .number (-1), _, .nil, .number (-1)⟩,
    ⟨'-' :: '-' :: (['x'] ++ '\n' :: []), .number 2, _, .comment (by decide) .nil, .number 2⟩,
    ⟨[], .word (String.ofList ['a']), _, .nil, .word (Lexer.isWord_cons_iff.2 ⟨rfl, nofun⟩)⟩,
    ⟨[], .string (String.ofList ['\n', '\'']), _, .nil,
      .string (Or.inr rfl) (.cons (.raw (by decide) (by decide)) (.cons .singleQuote .nil))⟩,
    ⟨[], .word (String.ofList ['l', 'o', 'a', 'd']), _, .nil,
      .word (Lexer.isWord_cons_iff.2 ⟨rfl, List.all_eq_true.1 rfl⟩)⟩]
  tail := [' '] ++ '-' :: '-' :: [' ', 'y']
  apart := .cons_cons (fun h => absurd h (by decide : ¬(0 : Int64) ≤ -1))
    (.cons_cons (fun _ => nofun) (.cons_cons nofun (.cons_cons nofun
      (.cons_cons nofun (.singleton _)))))
  trailing := .opened (.blank rfl .nil) (by decide)

theorem lexes_exactly_crowded :
    let source : Lexed := ⟨[
      ⟨.word "LOAD", ⟨1, 1⟩⟩, ⟨.number (-1), ⟨1, 5⟩⟩, ⟨.number 2, ⟨2, 1⟩⟩,
      ⟨.word "a", ⟨2, 2⟩⟩, ⟨.string "\n'", ⟨2, 3⟩⟩, ⟨.word "load", ⟨3, 4⟩⟩], ⟨3, 13⟩⟩
    lex "LOAD-1--x\n2a'\n\\''load -- y" = .ok source ∧ source.tokens = crowded.tokens ∧
      (Token.word "LOAD").keyword? = some .LOAD ∧ (Token.word "load").keyword? ≠ some .LOAD := by
  intro source
  have hchars : String.ofList crowded.chars = "LOAD-1--x\n2a'\n\\''load -- y" := by
    decide +kernel
  have hlexed : crowded.lexed = source := by decide +kernel
  obtain ⟨hlex, htokens, hkeyword⟩ := lexes_exactly crowded
  rw [hchars, hlexed] at hlex
  rw [hlexed] at htokens hkeyword
  have hupper := hkeyword ⟨.word "LOAD", ⟨1, 1⟩⟩ (by simp [source]) .LOAD
  have hlower := hkeyword ⟨.word "load", ⟨3, 4⟩⟩ (by simp [source]) .LOAD
  exact ⟨hlex, htokens, hupper.2 rfl, mt hlower.1 (by decide)⟩

end Layout

end BagQuery
