import BagQuery.Proofs.Attempt
import BagQuery.Proofs.NumberedLines
import BagQuery.Proofs.TokenReading

/-!
# The places of refusals

A refusal is about a place, and the place is one of the text (`Text.Position.PointsInto`).

* The lexer moves over the text from its start, so the places of its tokens and of its refusals are
  `Text.Position.behind` some front of the text (`Cursor.IsIn`).  The one exception is the place
  that it names for an unknown escape: it is one column in front of where the lexer stands, and
  behind a newline there is no such column (`Refusal.Placed`).
* The parser makes up no places.  What it leaves and what it complains about are among the tokens
  that it was given (`Parser.Keeps`), reader by reader.
-/

namespace BagQuery

open Text Attempt

namespace Text.Position

/-- The line is one of the text, and the column is that of one of its characters or the one behind
the last of them. -/
structure PointsInto (p : Position) (text : List Char) : Prop where
  line_pos : 1 ≤ p.line
  line_le : p.line ≤ 1 + text.count '\n'
  in_line : ∃ before line after, text = before ++ line ++ after ∧ IsLine '\n' before line after ∧
    p.line = 1 + before.count '\n' ∧ 1 ≤ p.column ∧ p.column ≤ 1 + line.length

/-- The place behind a front of the text points into it. -/
theorem pointsInto_behind (front rest : List Char) : (behind front).PointsInto (front ++ rest) where
  line_pos := Nat.le_add_right 1 _
  line_le := by
    rw [List.count_append]
    exact Nat.add_le_add_left (Nat.le_add_right _ _) 1
  in_line := by
    obtain ⟨before, line, after, htext, hline, hcount, hlength⟩ := exists_isLine front rest
    exact ⟨before, line, after, htext, hline, congrArg (1 + ·) hcount.symm, Nat.le_add_right 1 _,
      Nat.add_le_add_left hlength 1⟩

end Text.Position

/-! ## Places of the lexer -/

/-- The cursor stands in the text. -/
def Cursor.IsIn (text : List Char) (c : Cursor) : Prop :=
  ∃ front, text = front ++ c.rest ∧ c.place = .behind front

/-- The refusal is about a place in the text, or about an escaped newline, and then its place is in
front of the line behind that newline. -/
inductive Refusal.Placed (text : List Char) : Refusal → Prop
  | inText {r : Refusal} {front rest : List Char} (htext : text = front ++ rest)
      (hplace : r.place = .behind front) (hcomplaint : r.complaint ≠ .unknownEscape '\n') :
      Placed text r
  | escapedNewline {front rest : List Char} (htext : text = front ++ '\\' :: '\n' :: rest) :
      Placed text ⟨⟨2 + front.count '\n', 0⟩, .unknownEscape '\n'⟩

variable {text : List Char}

namespace Cursor

variable {place : Position} {c : Char} {cs : List Char}

theorem IsIn.append {taken rest : List Char} (h : IsIn text ⟨place, taken ++ rest⟩) :
    IsIn text ⟨place.afterAll taken, rest⟩ := by
  obtain ⟨front, htext, hplace⟩ := h
  refine ⟨front ++ taken, by rw [htext, List.append_assoc], ?_⟩
  rw [show place = _ from hplace, Position.behind_afterAll]

theorem IsIn.after (h : IsIn text ⟨place, c :: cs⟩) : IsIn text ⟨place.after c, cs⟩ :=
  have hone : IsIn text ⟨place, [c] ++ cs⟩ := h
  hone.append

theorem IsIn.refusal {complaint : Complaint} (h : IsIn text ⟨place, cs⟩)
    (hc : complaint ≠ .unknownEscape '\n') : Refusal.Placed text ⟨place, complaint⟩ := by
  obtain ⟨front, htext, hplace⟩ := h
  exact .inText htext hplace hc

theorem isIn_skipTrivia (inComment : Bool) (h : IsIn text ⟨place, cs⟩) :
    IsIn text (skipTrivia inComment place cs) := by
  fun_induction skipTrivia inComment place cs with
  | case1 => exact h
  | case2 place c cs ih => exact ih h.after
  | case3 place cs ih => exact ih h.after.after
  | case4 place c cs _ _ ih => exact ih h.after
  | case5 => exact h

end Cursor

namespace Lexer

variable {place opened : Position} {c : Char} {cs behindOpened : List Char}

/-- What a reader of the lexer leaves is in the text, and so is what it refuses. -/
def Stays {α : Type} (text : List Char) : Except Refusal (α × Cursor) → Prop :=
  Ends (Refusal.Placed text) fun a => a.2.IsIn text

theorem before_after {e : Char} (h : e ≠ '\n') : before (place.after e) = place := by
  rw [before, Position.after, if_neg h]
  rfl

/-- An escape is refused at the place of its letter, if that is no newline. -/
theorem placed_unknownEscape {e : Char} (h : Cursor.IsIn text ⟨place, '\\' :: e :: cs⟩) :
    Refusal.Placed text ⟨before ((place.after '\\').after e), .unknownEscape e⟩ := by
  by_cases he : e = '\n'
  · subst he
    obtain ⟨front, htext, rfl⟩ := h
    have hplace : before (((Position.behind front).after '\\').after '\n')
        = ⟨2 + front.count '\n', 0⟩ := by
      show (⟨1 + front.count '\n' + 1, 0⟩ : Position) = _
      rw [Nat.add_right_comm]
    rw [hplace]
    exact .escapedNewline htext
  · rw [before_after he]
    exact h.after.refusal fun heq => he (Complaint.unknownEscape.inj heq)

theorem stays_stringTail {quote : Char} (hopened : Cursor.IsIn text ⟨opened, behindOpened⟩)
    (h : Cursor.IsIn text ⟨place, cs⟩) : Stays text (stringTail quote opened place cs) := by
  fun_induction stringTail quote opened place cs with
  | case1 => exact hopened.refusal (by decide)
  | case2 place cs => exact h.after
  | case3 => exact hopened.refusal (by decide)
  | case4 place c rest e _ _ behind ih => exact (ih h.after.after).map fun a ha => ha
  | case5 place _ e rest behind he => exact placed_unknownEscape h
  | case6 place c cs _ _ ih => exact (ih h.after).map fun a ha => ha

theorem stays_number {digits : List Char} {next : Cursor} (h : Cursor.IsIn text ⟨place, cs⟩)
    (hnext : next.IsIn text) : Stays text ((number place digits).map (·, next)) := by
  unfold number
  split
  · exact hnext
  · exact h.refusal nofun

theorem stays_token (h : Cursor.IsIn text ⟨place, c :: cs⟩) : Stays text (token place c cs) := by
  have hdropped (p : Char → Bool) :
      (Cursor.advance (place.after c) (cs.takeWhile p) (cs.dropWhile p)).IsIn text := by
    have hsplit : cs = cs.takeWhile p ++ cs.dropWhile p := List.takeWhile_append_dropWhile.symm
    refine Cursor.IsIn.append ?_
    rw [← hsplit]
    exact h.after
  unfold token
  dsimp only
  split
  · exact h.after
  · split
    · exact (stays_stringTail h h.after).map fun a ha => ha
    · split
      · split
        · exact h.refusal nofun
        · exact stays_number h (hdropped _)
      · split
        · exact stays_number h (hdropped _)
        · split
          · exact hdropped _
          · exact h.refusal nofun

/-- A place of the text, as a token or the end of the text has it. -/
def IsPlace (text : List Char) (p : Position) : Prop :=
  ∃ front rest, text = front ++ rest ∧ p = .behind front

/-- **The tokens of a text have their places in it, and so have the refusals.** -/
theorem placed_lexFrom {start : Cursor} (h : start.IsIn text) :
    Ends (Refusal.Placed text)
      (fun lexed => (∀ l ∈ lexed.lexemes, IsPlace text l.place) ∧ IsPlace text lexed.finish)
      (lexFrom start) := by
  fun_induction lexFrom start with
  | case1 start place hskip =>
    have hplace := Cursor.isIn_skipTrivia false h
    rw [hskip] at hplace
    obtain ⟨front, htext, rfl⟩ := hplace
    exact ⟨nofun, front, [], htext, rfl⟩
  | case2 start place c cs hskip refusal htoken =>
    have hplace := Cursor.isIn_skipTrivia false h
    rw [hskip] at hplace
    exact (stays_token hplace).of_error htoken
  | case3 start place c cs hskip t next htoken ih =>
    have hplace := Cursor.isIn_skipTrivia false h
    rw [hskip] at hplace
    have hnext := (stays_token hplace).of_ok htoken
    obtain ⟨front, htext, rfl⟩ := hplace
    refine (ih hnext).map fun lexed hlexed => ⟨?_, hlexed.2⟩
    rw [List.forall_mem_cons]
    exact ⟨⟨front, c :: cs, htext, rfl⟩, hlexed.1⟩

end Lexer

/-! ## Places of the parser -/

namespace Parser

variable {P : Lexeme → Prop} {rest : Rest} {α : Type}

/-- The complaint is about a token of `P` or the end of the text, and about no
escaped newline. -/
def Halt.About (P : Lexeme → Prop) (halt : Halt) : Prop :=
  (∀ l, halt.lexeme = some l → P l) ∧ halt.complaint ≠ .unknownEscape '\n'

/-- Whatever holds of the tokens that a reader is given holds of those that it leaves, and of the
one that it complains about. -/
def Keeps (read : Rest → Except Halt (α × Rest)) : Prop :=
  ∀ {P : Lexeme → Prop} {rest : Rest}, (∀ l ∈ rest, P l) →
    Ends (Halt.About P) (fun a => ∀ l ∈ a.2, P l) (read rest)

theorem forall_mem_tail (h : ∀ l ∈ rest, P l) : ∀ l ∈ rest.tail, P l :=
  fun l hl => h l (List.mem_of_mem_tail hl)

theorem refuse_about (h : ∀ l ∈ rest, P l) {complaint : Complaint}
    (hc : complaint ≠ .unknownEscape '\n') {A : α → Prop} :
    Ends (Halt.About P) A (refuse rest complaint) :=
  ⟨fun l hl => h l (List.mem_of_mem_head? hl), hc⟩

theorem expected_about (h : ∀ l ∈ rest, P l) (what : Expected) {A : α → Prop} :
    Ends (Halt.About P) A (expected what rest) :=
  refuse_about h (by nofun)

theorem keeps_mark (m : Mark) (h : ∀ l ∈ rest, P l) :
    Ends (Halt.About P) (fun behind => ∀ l ∈ behind, P l) (mark m rest) := by
  unfold mark
  split
  · exact forall_mem_tail h
  · exact expected_about h _

theorem keeps_keyword (k : Keyword) (h : ∀ l ∈ rest, P l) :
    Ends (Halt.About P) (fun behind => ∀ l ∈ behind, P l) (keyword k rest) := by
  unfold keyword
  split
  · exact forall_mem_tail h
  · exact expected_about h _

theorem keeps_tokenAs (what : Expected) (meaning : Token → Option α) :
    Keeps (tokenAs what meaning) := by
  intro P rest h
  cases rest with
  | nil => exact expected_about h what
  | cons lexeme rest =>
    rw [tokenAs]
    split
    · exact forall_mem_tail h
    · exact expected_about h what

theorem keeps_identifier : Keeps identifier := keeps_tokenAs _ _

theorem keeps_count : Keeps count := by
  intro P rest h
  refine (keeps_tokenAs _ _ h).bind fun a ha => ?_
  dsimp only
  split
  · exact refuse_about h (by nofun)
  · exact ha

theorem keeps_columnType : Keeps columnType := by
  intro P rest h
  refine (keeps_tokenAs _ _ h).bind fun a ha => ?_
  dsimp only
  split
  · exact ha
  · exact refuse_about h (by nofun)

theorem keeps_dottedTail : Keeps dottedTail := by
  intro P rest h
  fun_induction dottedTail rest with
  | case1 rest hperiod halt hname =>
    exact (keeps_identifier (forall_mem_tail h)).of_error hname
  | case2 rest hperiod name next hname ih =>
    have hnext := (keeps_identifier (forall_mem_tail h)).of_ok hname
    exact (ih hnext).bind fun a ha => ha
  | case3 => exact h

theorem keeps_columnName : Keeps columnName := fun h =>
  (keeps_identifier h).bind fun _ hname => (keeps_dottedTail hname).bind fun _ hmore => hmore

theorem keeps_listTail {item : Rest → Except Halt (α × Rest)} {takes : Takes item}
    (hitem : Keeps item) : Keeps (listTail item takes) := by
  intro P rest h
  fun_induction listTail item takes rest with
  | case1 rest hcomma halt hfirst =>
    exact (hitem (forall_mem_tail h)).of_error hfirst
  | case2 rest hcomma a next hfirst ih =>
    have hnext := (hitem (forall_mem_tail h)).of_ok hfirst
    exact (ih hnext).bind fun a ha => ha
  | case3 => exact h

theorem keeps_parenthesized {item : Rest → Except Halt (α × Rest)} {takes : Takes item}
    (hitem : Keeps item) : Keeps (parenthesized item takes) := fun h =>
  (keeps_mark _ h).bind fun _ hopen => (hitem hopen).bind fun _ hfirst =>
    (keeps_listTail hitem hfirst).bind fun _ hmore => (keeps_mark _ hmore).bind fun _ hclosed =>
      hclosed

theorem keeps_column : Keeps column := fun h =>
  (keeps_columnName h).bind fun _ hname => (keeps_mark _ hname).bind fun _ hcolon =>
    (keeps_columnType hcolon).bind fun _ htype => htype

theorem keeps_columns : Keeps columns := keeps_parenthesized keeps_column

theorem keeps_columnNames : Keeps columnNames := keeps_parenthesized keeps_columnName

theorem keeps_row : Keeps row := fun h =>
  (keeps_parenthesized (keeps_tokenAs _ _) h).bind fun _ hrow => hrow

theorem keeps_rowsTail : Keeps rowsTail := by
  intro P rest h
  fun_induction rowsTail rest with
  | case1 rest halt hrow => exact (keeps_row h).of_error hrow
  | case2 rest t next hrow hclosed => exact forall_mem_tail ((keeps_row h).of_ok hrow)
  | case3 rest t next hrow hclosed halt hcomma =>
    exact (keeps_mark .comma ((keeps_row h).of_ok hrow)).of_error hcomma
  | case4 rest t next hrow hclosed last hcomma ih =>
    have hlast := (keeps_mark .comma ((keeps_row h).of_ok hrow)).of_ok hcomma
    exact (ih hlast).bind fun a ha => ha

theorem keeps_rows : Keeps rows := by
  intro P rest h
  refine (keeps_mark _ h).bind fun behind hopen => ?_
  split
  · exact forall_mem_tail hopen
  · exact keeps_rowsTail hopen

theorem keeps_joinSide : Keeps joinSide := by
  intro P rest h
  refine (keeps_identifier h).bind fun _ hname => (keeps_keyword _ hname).bind fun behind hby => ?_
  dsimp only
  split
  · exact (keeps_columnNames hby).bind fun _ hcolumns => hcolumns
  · exact (keeps_columnName hby).bind fun _ hcolumn => hcolumn

theorem keeps_setOp (op : SetOp) : Keeps (setOp op) := fun h =>
  (keeps_identifier h).bind fun _ hleft => (keeps_mark _ hleft).bind fun _ hcomma =>
    (keeps_identifier hcomma).bind fun _ hright => hright

theorem keeps_load : Keeps load := fun h =>
  (keeps_tokenAs _ _ h).bind fun _ hpath => (keeps_keyword _ hpath).bind fun _ has =>
    (keeps_columns has).bind fun _ hcolumns => hcolumns

theorem keeps_table : Keeps table := fun h =>
  (keeps_rows h).bind fun _ hrows => (keeps_keyword _ hrows).bind fun _ has =>
    (keeps_columns has).bind fun _ hcolumns => hcolumns

theorem keeps_limit : Keeps limit := fun h =>
  (keeps_identifier h).bind fun _ hinput => (keeps_mark _ hinput).bind fun _ hcomma =>
    (keeps_count hcomma).bind fun _ hcount => hcount

theorem keeps_foreach : Keeps foreach := by
  intro P rest h
  refine (keeps_identifier h).bind fun _ hinput => (keeps_keyword _ hinput).bind fun _ hemit =>
    (keeps_columnNames hemit).bind fun _ hnames => ?_
  dsimp only
  split
  · exact (keeps_columns (forall_mem_tail hnames)).bind fun _ hrename => hrename
  · exact hnames

theorem keeps_join : Keeps join := fun h =>
  (keeps_joinSide h).bind fun _ hleft => (keeps_mark _ hleft).bind fun _ hcomma =>
    (keeps_joinSide hcomma).bind fun _ hright => hright

theorem keeps_reference : Keeps reference := fun h =>
  (keeps_identifier h).bind fun _ hname => hname

theorem keeps_expr : Keeps expr := by
  intro P rest h
  induction rest with
  | nil => exact keeps_reference h
  | cons lexeme rest ih =>
    have hrest : ∀ l ∈ rest, P l := forall_mem_tail h
    rw [expr]
    split
    · exact keeps_load hrest
    · exact keeps_table hrest
    · exact (ih hrest).bind fun _ hinput => hinput
    · exact keeps_limit hrest
    · exact keeps_setOp _ hrest
    · exact keeps_setOp _ hrest
    · exact keeps_setOp _ hrest
    · exact keeps_foreach hrest
    · exact keeps_join hrest
    · exact keeps_reference h

theorem keeps_simple : Keeps simple := by
  intro P rest h
  unfold simple
  split
  · exact (keeps_expr (forall_mem_tail h)).bind fun _ he => he
  · exact (keeps_identifier (forall_mem_tail h)).bind fun _ hname => hname
  · exact (keeps_identifier (forall_mem_tail h)).bind fun _ hname => hname
  · exact (keeps_identifier h).bind fun _ htarget => (keeps_mark _ htarget).bind fun _ hequals =>
      (keeps_expr hequals).bind fun _ he => he

theorem Keeps.ended {read : Rest → Except Halt (α × Rest)} (hread : Keeps read) :
    Keeps (ended read) := fun h =>
  (hread h).bind fun _ ha => (keeps_mark _ ha).bind fun _ hsemicolon => hsemicolon

/-- **The parser of programs complains about one of the tokens, or about the end of the text.** -/
theorem about_statements {outer : List Program} {done : Program} (h : ∀ l ∈ rest, P l) :
    Ends (Halt.About P) (fun _ => True) (statements outer done rest) := by
  fun_induction statements outer done rest with
  | case1 => trivial
  | case2 => exact refuse_about h (by decide)
  | case3 done lexeme rest outer hk ih => exact ih (forall_mem_tail h)
  | case4 done lexeme rest around outer hk halt hcondition =>
    have hrest : ∀ l ∈ rest, P l := forall_mem_tail h
    exact (keeps_expr.ended hrest).of_error hcondition
  | case5 done lexeme rest around outer hk condition next hcondition ih =>
    have hrest : ∀ l ∈ rest, P l := forall_mem_tail h
    rw [List.unattach_reverse, List.unattach_attach] at ih
    exact ih ((keeps_expr.ended hrest).of_ok hcondition)
  | case6 outer done lexeme rest halt hs => exact (keeps_simple.ended h).of_error hs
  | case7 outer done lexeme rest s next hs _ _ ih => exact ih ((keeps_simple.ended h).of_ok hs)

theorem about_wholeExpr (h : ∀ l ∈ rest, P l) :
    Ends (Halt.About P) (fun _ => True) (do
      let (e, behind) ← expr rest
      match behind with
      | [] => return e
      | lexeme :: behind => refuse (lexeme :: behind) (.leftOver lexeme.token)) := by
  refine (keeps_expr h).bind fun a ha => ?_
  obtain ⟨e, behind⟩ := a
  cases behind with
  | nil => trivial
  | cons lexeme behind => exact refuse_about ha (by nofun)

theorem Halt.About.placed {halt : Halt} {finish : Position}
    (h : halt.About fun l => Lexer.IsPlace text l.place) (hfinish : Lexer.IsPlace text finish) :
    Refusal.Placed text (halt.toRefusal finish) := by
  obtain ⟨lexeme, complaint⟩ := halt
  have hplace : Lexer.IsPlace text ((lexeme.map Lexeme.place).getD finish) := by
    cases lexeme with
    | none => exact hfinish
    | some l => exact h.1 l rfl
  obtain ⟨front, rest, htext, hplace⟩ := hplace
  exact .inText htext hplace h.2

theorem placed_mapError {x : Except Halt α} {finish : Position}
    (hx : Ends (Halt.About fun l => Lexer.IsPlace text l.place) (fun _ => True) x)
    (hfinish : Lexer.IsPlace text finish) :
    Ends (Refusal.Placed text) (fun _ => True) (x.mapError (·.toRefusal finish)) := by
  cases x with
  | ok a => trivial
  | error halt => exact Halt.About.placed hx hfinish

end Parser

/-! ## Whole texts -/

/-- What a text is refused for is about a place in it, whichever of the readers refuses it. -/
theorem refusal_placed {text : String} {r : Refusal}
    (h : lex text = .error r ∨ Program.parse text = .error r ∨ Expr.parse text = .error r) :
    Refusal.Placed text.toList r := by
  have hlex : Ends (Refusal.Placed text.toList) _ (lex text) :=
    Lexer.placed_lexFrom ⟨[], rfl, rfl⟩
  have hparse : Ends (Refusal.Placed text.toList) (fun _ => True) (Program.parse text) :=
    hlex.bind fun _ hlexed => Parser.placed_mapError (Parser.about_statements hlexed.1) hlexed.2
  have hexpr : Ends (Refusal.Placed text.toList) (fun _ => True) (Expr.parse text) :=
    hlex.bind fun _ hlexed => Parser.placed_mapError (Parser.about_wholeExpr hlexed.1) hlexed.2
  rcases h with h | h | h
  · exact hlex.of_error h
  · exact hparse.of_error h
  · exact hexpr.of_error h

/-- **Refusals point into the text.**  The place that a text is refused at is the place of one of
its characters or the one behind the last of a line, unless the refusal is about an escaped newline.
Then it is in front of the line behind the newline, where no character is. -/
theorem refusals_point_into_text {text : String} {r : Refusal}
    (h : lex text = .error r ∨ Program.parse text = .error r ∨ Expr.parse text = .error r) :
    (r.place.PointsInto text.toList ↔ r.complaint ≠ .unknownEscape '\n') ∧
      (r.complaint = .unknownEscape '\n' → ∃ front rest,
        text.toList = front ++ '\\' :: '\n' :: rest ∧ r.place = ⟨2 + front.count '\n', 0⟩) := by
  cases refusal_placed h with
  | @inText r front rest htext hplace hcomplaint =>
    refine ⟨⟨fun _ => hcomplaint, fun _ => ?_⟩, fun heq => absurd heq hcomplaint⟩
    rw [htext, hplace]
    exact Position.pointsInto_behind front rest
  | @escapedNewline front rest htext =>
    refine ⟨⟨fun hpoints => ?_, fun hne => absurd rfl hne⟩, fun _ => ⟨front, rest, htext, rfl⟩⟩
    obtain ⟨_, _, _, _, _, _, hcolumn, _⟩ := hpoints.in_line
    exact absurd hcolumn (Nat.not_succ_le_zero _)

/-- A statement without its name is refused at the place of its semicolon, on the second line. -/
theorem refusals_point_into_text_second_line :
    Program.parse "DUMP a;\nDUMP ;" =
        .error ⟨⟨2, 6⟩, .expected .identifier (some (.mark .semicolon))⟩ ∧
      (⟨2, 6⟩ : Position).PointsInto "DUMP a;\nDUMP ;".toList := by
  have hunit : (Program.parse "DUMP a;\nDUMP ;").map (fun _ => ()) =
      .error ⟨⟨2, 6⟩, .expected .identifier (some (.mark .semicolon))⟩ := by
    decide +kernel
  cases hparse : Program.parse "DUMP a;\nDUMP ;" with
  | ok ss =>
    rw [hparse] at hunit
    cases hunit
  | error r =>
    rw [hparse] at hunit
    cases hunit
    exact ⟨rfl, (refusals_point_into_text (.inr (.inl hparse))).1.2 nofun⟩

/-- An escaped newline is refused at the column zero of the second line. -/
theorem escaped_newline_points_nowhere :
    ∃ r, lex "\"\\\n\"" = .error r ∧ r.complaint = .unknownEscape '\n' ∧ r.place = ⟨2, 0⟩ ∧
      ¬r.place.PointsInto "\"\\\n\"".toList := by
  refine ⟨⟨⟨2, 0⟩, .unknownEscape '\n'⟩, by decide +kernel, rfl, rfl, fun h => ?_⟩
  obtain ⟨_, _, _, _, _, _, hcolumn, _⟩ := h.in_line
  cases hcolumn

end BagQuery
