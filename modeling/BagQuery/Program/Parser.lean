import BagQuery.Program.Expr
import BagQuery.Program.Lexer

/-!
# Reading programs

The grammar, with the tokens that it refuses.  A reader takes the tokens that are left and gives
what it read and the tokens behind it; `Takes` says that a reader uses up at least one token, which
is why lists and programs end.

* `parse` reads a program, `parseExpr` a text that is one expression.
* A loop is read when its `WHILE` comes: `statements` keeps the statements of the loops that are
  open around a place, innermost first.
-/

namespace BagQuery

open Text

namespace Parser

/-- Where reading stopped, `none` being the end of the text, and why. -/
structure Halt where
  lexeme : Option Lexeme
  complaint : Complaint

/-- The tokens that are left. -/
abbrev Rest := List Lexeme

/-- Refuses the next token. -/
def refuse {α : Type} (rest : Rest) (complaint : Complaint) : Except Halt α :=
  .error ⟨rest.head?, complaint⟩

/-- Refuses the next token, where something else may stand. -/
def expected {α : Type} (what : Expected) (rest : Rest) : Except Halt α :=
  refuse rest (.expected what (rest.head?.map Lexeme.token))

/-- The next token is the mark. -/
def startsWith (m : Mark) (rest : Rest) : Bool := rest.head?.map Lexeme.token == some (.mark m)

/-- The keyword that the next token is. -/
def keyword? (rest : Rest) : Option Keyword := rest.head?.bind (·.token.keyword?)

/-- Reads a mark. -/
def mark (m : Mark) (rest : Rest) : Except Halt Rest :=
  if startsWith m rest then .ok rest.tail else expected (.mark m) rest

/-- Reads a keyword. -/
def keyword (k : Keyword) (rest : Rest) : Except Halt Rest :=
  if keyword? rest = some k then .ok rest.tail else expected (.keyword k) rest

/-- Reads a token that stands for something. -/
def tokenAs {α : Type} (what : Expected) (meaning : Token → Option α) :
    Rest → Except Halt (α × Rest)
  | [] => expected what []
  | lexeme :: rest =>
    match meaning lexeme.token with
    | some a => .ok (a, rest)
    | none => expected what (lexeme :: rest)

/-- Reads a name. -/
def identifier : Rest → Except Halt (String × Rest) := tokenAs .identifier Token.name?

/-- Reads a quoted string. -/
def string : Rest → Except Halt (String × Rest) := tokenAs .string fun
  | .string s => some s
  | _ => none

/-- Reads an integer or a string. -/
def literal : Rest → Except Halt (Atom × Rest) := tokenAs .literal fun
  | .number i => some (.int i)
  | .string s => some (.string s)
  | _ => none

/-- Reads the count of a limit. -/
def count (rest : Rest) : Except Halt (Nat × Rest) := do
  let (value, behind) ← tokenAs .count (fun | .number i => some i | _ => none) rest
  if value.toInt < 0 then refuse rest .negativeCount else return (value.toInt.toNat, behind)

/-- Reads a column type. -/
def columnType (rest : Rest) : Except Halt (ColumnType × Rest) := do
  let (name, behind) ← tokenAs .columnType Token.name? rest
  match ColumnType.ofName? name with
  | some type => return (type, behind)
  | none => refuse rest (.unknownType name)

/-! ## Readers take tokens -/

/-- The reader uses up at least one token. -/
def Takes {α : Type} (read : Rest → Except Halt (α × Rest)) : Prop :=
  ∀ {rest : Rest} {a : α} {behind : Rest}, read rest = .ok (a, behind) →
    behind.length < rest.length

theorem bind_eq_ok {α β : Type} {x : Except Halt α} {f : α → Except Halt β} {b : β} :
    (x >>= f) = .ok b ↔ ∃ a, x = .ok a ∧ f a = .ok b := by
  cases x <;> simp [bind, Except.bind]

theorem length_mark {m : Mark} {rest behind : Rest} (h : mark m rest = .ok behind) :
    behind.length < rest.length := by
  unfold mark at h
  split at h
  · next hm =>
    cases h
    cases rest with
    | nil => simp [startsWith] at hm
    | cons => simp
  · cases h

theorem length_keyword {k : Keyword} {rest behind : Rest} (h : keyword k rest = .ok behind) :
    behind.length < rest.length := by
  unfold keyword at h
  split at h
  · next hk =>
    cases h
    cases rest with
    | nil => simp [keyword?] at hk
    | cons => simp
  · cases h

theorem takes_tokenAs {α : Type} (what : Expected) (meaning : Token → Option α) :
    Takes (tokenAs what meaning) := by
  intro rest a behind h
  unfold tokenAs at h
  split at h
  · cases h
  · split at h
    · cases h; simp
    · cases h

theorem takes_columnType : Takes columnType := by
  intro rest a behind h
  obtain ⟨⟨name, next⟩, hname, h⟩ := bind_eq_ok.1 h
  have := takes_tokenAs _ _ hname
  dsimp only at h
  split at h
  · cases h; exact this
  · cases h

/-! ## Lists -/

/-- Reads `. name` as long as a period follows. -/
def dottedTail (rest : Rest) : Except Halt (String × Rest) :=
  if startsWith .period rest then
    match _h : identifier rest.tail with
    | .error halt => .error halt
    | .ok (name, behind) => do
      let (more, behind) ← dottedTail behind
      return ("." ++ name ++ more, behind)
  else .ok ("", rest)
termination_by rest.length
decreasing_by
  have := takes_tokenAs _ _ _h
  have : rest.tail.length ≤ rest.length := by simp
  omega

/-- Reads a column name: names with periods between them. -/
def columnName (rest : Rest) : Except Halt (String × Rest) := do
  let (name, rest) ← identifier rest
  let (more, rest) ← dottedTail rest
  return (name ++ more, rest)

theorem length_dottedTail {rest behind : Rest} {s : String}
    (h : dottedTail rest = .ok (s, behind)) : behind.length ≤ rest.length := by
  fun_induction dottedTail rest generalizing s behind with
  | case1 => cases h
  | case2 rest _ name next hname ih =>
    obtain ⟨⟨more, last⟩, hmore, h⟩ := bind_eq_ok.1 h
    cases h
    have := ih hmore
    have := takes_tokenAs _ _ hname
    have : rest.tail.length ≤ rest.length := by simp
    omega
  | case3 => cases h; exact Nat.le_refl _

theorem takes_columnName : Takes columnName := by
  intro rest a behind h
  obtain ⟨⟨name, next⟩, hname, h⟩ := bind_eq_ok.1 h
  obtain ⟨⟨more, last⟩, hmore, h⟩ := bind_eq_ok.1 h
  cases h
  have := takes_tokenAs _ _ hname
  have := length_dottedTail hmore
  omega

/-- Reads `, item` as long as a comma follows. -/
def listTail {α : Type} (item : Rest → Except Halt (α × Rest)) (takes : Takes item) (rest : Rest) :
    Except Halt (List α × Rest) :=
  if startsWith .comma rest then
    match _h : item rest.tail with
    | .error halt => .error halt
    | .ok (a, behind) => do
      let (more, behind) ← listTail item takes behind
      return (a :: more, behind)
  else .ok ([], rest)
termination_by rest.length
decreasing_by
  have := takes _h
  have : rest.tail.length ≤ rest.length := by simp
  omega

/-- Reads a list in parentheses: one item or more, with commas between them. -/
def parenthesized {α : Type} (item : Rest → Except Halt (α × Rest)) (takes : Takes item)
    (rest : Rest) : Except Halt (List α × Rest) := do
  let rest ← mark .leftParen rest
  let (a, rest) ← item rest
  let (more, rest) ← listTail item takes rest
  let rest ← mark .rightParen rest
  return (a :: more, rest)

theorem length_listTail {α : Type} {item : Rest → Except Halt (α × Rest)} {takes : Takes item}
    {rest behind : Rest} {as : List α} (h : listTail item takes rest = .ok (as, behind)) :
    behind.length ≤ rest.length := by
  fun_induction listTail item takes rest generalizing as behind with
  | case1 => cases h
  | case2 rest _ a next ha ih =>
    obtain ⟨⟨more, last⟩, hmore, h⟩ := bind_eq_ok.1 h
    cases h
    have := ih hmore
    have := takes ha
    have : rest.tail.length ≤ rest.length := by simp
    omega
  | case3 => cases h; exact Nat.le_refl _

theorem takes_parenthesized {α : Type} {item : Rest → Except Halt (α × Rest)} (takes : Takes item) :
    Takes (parenthesized item takes) := by
  intro rest as behind h
  obtain ⟨r1, h1, h⟩ := bind_eq_ok.1 h
  obtain ⟨⟨a, r2⟩, h2, h⟩ := bind_eq_ok.1 h
  obtain ⟨⟨more, r3⟩, h3, h⟩ := bind_eq_ok.1 h
  obtain ⟨r4, h4, h⟩ := bind_eq_ok.1 h
  cases h
  have := length_mark h1
  have := takes h2
  have := length_listTail h3
  have := length_mark h4
  dsimp only at *
  omega

/-- Reads a column definition. -/
def column (rest : Rest) : Except Halt (Column × Rest) := do
  let (name, rest) ← columnName rest
  let rest ← mark .colon rest
  let (type, rest) ← columnType rest
  return (⟨name, type⟩, rest)

theorem takes_column : Takes column := by
  intro rest c behind h
  obtain ⟨⟨name, r1⟩, h1, h⟩ := bind_eq_ok.1 h
  obtain ⟨r2, h2, h⟩ := bind_eq_ok.1 h
  obtain ⟨⟨type, r3⟩, h3, h⟩ := bind_eq_ok.1 h
  cases h
  have := takes_columnName h1
  have := length_mark h2
  have := takes_columnType h3
  dsimp only at *
  omega

/-- Reads column definitions in parentheses. -/
def columns : Rest → Except Halt (List Column × Rest) := parenthesized column takes_column

/-- Reads column names in parentheses. -/
def columnNames : Rest → Except Halt (List String × Rest) :=
  parenthesized columnName takes_columnName

theorem takes_literal : Takes literal := takes_tokenAs _ _

/-- Reads a row of a table. -/
def row (rest : Rest) : Except Halt (Tuple × Rest) := do
  let (atoms, rest) ← parenthesized literal takes_literal rest
  return (⟨atoms⟩, rest)

theorem takes_row : Takes row := by
  intro rest t behind h
  obtain ⟨⟨atoms, next⟩, h1, h⟩ := bind_eq_ok.1 h
  cases h
  exact takes_parenthesized takes_literal h1

/-- Reads rows up to the closing bracket, at least one. -/
def rowsTail (rest : Rest) : Except Halt (List Tuple × Rest) :=
  match _h : row rest with
  | .error halt => .error halt
  | .ok (t, behind) =>
    if startsWith .rightBracket behind then .ok ([t], behind.tail)
    else
      match _hcomma : mark .comma behind with
      | .error halt => .error halt
      | .ok next => do
        let (more, last) ← rowsTail next
        return (t :: more, last)
termination_by rest.length
decreasing_by
  have := takes_row _h
  have := length_mark _hcomma
  omega

/-- Reads the rows of a table in brackets; there may be none. -/
def rows (rest : Rest) : Except Halt (List Tuple × Rest) := do
  let rest ← mark .leftBracket rest
  if startsWith .rightBracket rest then return ([], rest.tail) else rowsTail rest

/-! ## Expressions -/

/-- Reads one side of a join; a single column needs no parentheses. -/
def joinSide (rest : Rest) : Except Halt (JoinSide × Rest) := do
  let (name, rest) ← identifier rest
  let rest ← keyword .BY rest
  if startsWith .leftParen rest then
    let (columns, rest) ← columnNames rest
    return (⟨name, columns⟩, rest)
  else
    let (column, rest) ← columnName rest
    return (⟨name, [column]⟩, rest)

/-- Reads the operands of a set operator. -/
def setOp (op : SetOp) (rest : Rest) : Except Halt (Expr × Rest) := do
  let (left, rest) ← identifier rest
  let rest ← mark .comma rest
  let (right, rest) ← identifier rest
  return (.setOp op left right, rest)

/-- Reads what follows `LOAD`. -/
def load (rest : Rest) : Except Halt (Expr × Rest) := do
  let (path, rest) ← string rest
  let rest ← keyword .AS rest
  let (columns, rest) ← columns rest
  return (.load path columns, rest)

/-- Reads what follows `TABLE`. -/
def table (rest : Rest) : Except Halt (Expr × Rest) := do
  let (rows, rest) ← rows rest
  let rest ← keyword .AS rest
  let (columns, rest) ← columns rest
  return (.table rows columns, rest)

/-- Reads what follows `LIMIT`. -/
def limit (rest : Rest) : Except Halt (Expr × Rest) := do
  let (input, rest) ← identifier rest
  let rest ← mark .comma rest
  let (count, rest) ← count rest
  return (.limit input count, rest)

/-- Reads what follows `FOREACH`. -/
def foreach (rest : Rest) : Except Halt (Expr × Rest) := do
  let (input, rest) ← identifier rest
  let rest ← keyword .EMIT rest
  let (names, rest) ← columnNames rest
  if keyword? rest = some .AS then
    let (rename, rest) ← columns rest.tail
    return (.foreach input names (some rename), rest)
  else return (.foreach input names none, rest)

/-- Reads what follows `JOIN`. -/
def join (rest : Rest) : Except Halt (Expr × Rest) := do
  let (left, rest) ← joinSide rest
  let rest ← mark .comma rest
  let (right, rest) ← joinSide rest
  return (.join left right, rest)

/-- Reads a bound name as an expression. -/
def reference (rest : Rest) : Except Halt (Expr × Rest) := do
  let (name, rest) ← identifier rest
  return (.reference name, rest)

/-- Reads an expression. -/
def expr : Rest → Except Halt (Expr × Rest)
  | [] => reference []
  | lexeme :: rest =>
    match lexeme.token.keyword? with
    | some .LOAD => load rest
    | some .TABLE => table rest
    | some .DISTINCT => do
      let (input, rest) ← expr rest
      return (.distinct input, rest)
    | some .LIMIT => limit rest
    | some .UNION => setOp .union rest
    | some .INTERSECT => setOp .intersect rest
    | some .DIFF => setOp .diff rest
    | some .FOREACH => foreach rest
    | some .JOIN => join rest
    | _ => reference (lexeme :: rest)

/-! Every expression takes tokens. -/

theorem length_rowsTail {rest behind : Rest} {ts : List Tuple}
    (h : rowsTail rest = .ok (ts, behind)) : behind.length < rest.length := by
  fun_induction rowsTail rest generalizing ts behind with
  | case1 => cases h
  | case2 rest t next ht =>
    cases h
    have := takes_row ht
    have : next.tail.length ≤ next.length := by simp
    omega
  | case3 => cases h
  | case4 rest t next ht _ last hlast ih =>
    obtain ⟨⟨more, r⟩, hmore, h⟩ := bind_eq_ok.1 h
    cases h
    have := takes_row ht
    have := length_mark hlast
    have := ih hmore
    omega

theorem takes_rows : Takes rows := by
  intro rest ts behind h
  obtain ⟨r1, h1, h⟩ := bind_eq_ok.1 h
  have := length_mark h1
  split at h
  · cases h
    have : r1.tail.length ≤ r1.length := by simp
    omega
  · have := length_rowsTail h
    omega

theorem takes_joinSide : Takes joinSide := by
  intro rest side behind h
  obtain ⟨⟨name, r1⟩, h1, h⟩ := bind_eq_ok.1 h
  obtain ⟨r2, h2, h⟩ := bind_eq_ok.1 h
  have := takes_tokenAs _ _ h1
  have := length_keyword h2
  dsimp only at *
  split at h
  · obtain ⟨⟨columns, r3⟩, h3, h⟩ := bind_eq_ok.1 h
    cases h
    have := takes_parenthesized takes_columnName h3
    dsimp only at *
    omega
  · obtain ⟨⟨column, r3⟩, h3, h⟩ := bind_eq_ok.1 h
    cases h
    have := takes_columnName h3
    dsimp only at *
    omega

theorem takes_setOp (op : SetOp) : Takes (setOp op) := by
  intro rest e behind h
  obtain ⟨⟨left, r1⟩, h1, h⟩ := bind_eq_ok.1 h
  obtain ⟨r2, h2, h⟩ := bind_eq_ok.1 h
  obtain ⟨⟨right, r3⟩, h3, h⟩ := bind_eq_ok.1 h
  cases h
  have := takes_tokenAs _ _ h1
  have := length_mark h2
  have := takes_tokenAs _ _ h3
  dsimp only at *
  omega

theorem takes_load : Takes load := by
  intro rest e behind h
  obtain ⟨⟨path, r1⟩, h1, h⟩ := bind_eq_ok.1 h
  obtain ⟨r2, h2, h⟩ := bind_eq_ok.1 h
  obtain ⟨⟨columns, r3⟩, h3, h⟩ := bind_eq_ok.1 h
  cases h
  have := takes_tokenAs _ _ h1
  have := length_keyword h2
  have := takes_parenthesized takes_column h3
  dsimp only at *
  omega

theorem takes_table : Takes table := by
  intro rest e behind h
  obtain ⟨⟨rows, r1⟩, h1, h⟩ := bind_eq_ok.1 h
  obtain ⟨r2, h2, h⟩ := bind_eq_ok.1 h
  obtain ⟨⟨columns, r3⟩, h3, h⟩ := bind_eq_ok.1 h
  cases h
  have := takes_rows h1
  have := length_keyword h2
  have := takes_parenthesized takes_column h3
  dsimp only at *
  omega

theorem takes_count : Takes count := by
  intro rest n behind h
  obtain ⟨⟨value, r1⟩, h1, h⟩ := bind_eq_ok.1 h
  have := takes_tokenAs _ _ h1
  dsimp only at h
  split at h
  · cases h
  · cases h
    exact this

theorem takes_limit : Takes limit := by
  intro rest e behind h
  obtain ⟨⟨input, r1⟩, h1, h⟩ := bind_eq_ok.1 h
  obtain ⟨r2, h2, h⟩ := bind_eq_ok.1 h
  obtain ⟨⟨n, r3⟩, h3, h⟩ := bind_eq_ok.1 h
  cases h
  have := takes_tokenAs _ _ h1
  have := length_mark h2
  have := takes_count h3
  dsimp only at *
  omega

theorem takes_foreach : Takes foreach := by
  intro rest e behind h
  obtain ⟨⟨input, r1⟩, h1, h⟩ := bind_eq_ok.1 h
  obtain ⟨r2, h2, h⟩ := bind_eq_ok.1 h
  obtain ⟨⟨names, r3⟩, h3, h⟩ := bind_eq_ok.1 h
  have := takes_tokenAs _ _ h1
  have := length_keyword h2
  have := takes_parenthesized takes_columnName h3
  dsimp only at *
  split at h
  · obtain ⟨⟨rename, r4⟩, h4, h⟩ := bind_eq_ok.1 h
    cases h
    have := takes_parenthesized takes_column h4
    have : r3.tail.length ≤ r3.length := by simp
    dsimp only at *
    omega
  · cases h
    omega

theorem takes_join : Takes join := by
  intro rest e behind h
  obtain ⟨⟨left, r1⟩, h1, h⟩ := bind_eq_ok.1 h
  obtain ⟨r2, h2, h⟩ := bind_eq_ok.1 h
  obtain ⟨⟨right, r3⟩, h3, h⟩ := bind_eq_ok.1 h
  cases h
  have := takes_joinSide h1
  have := length_mark h2
  have := takes_joinSide h3
  dsimp only at *
  omega

theorem takes_reference : Takes reference := by
  intro rest e behind h
  obtain ⟨⟨name, r1⟩, h1, h⟩ := bind_eq_ok.1 h
  cases h
  exact takes_tokenAs _ _ h1

theorem takes_expr : Takes expr := by
  intro rest
  induction rest with
  | nil => intro e behind h; exact takes_reference h
  | cons lexeme rest ih =>
    intro e behind h
    have behindHead {r : Rest} (h : r.length < rest.length) :
        r.length < (lexeme :: rest).length := by simp only [List.length_cons]; omega
    unfold expr at h
    split at h
    · exact behindHead (takes_load h)
    · exact behindHead (takes_table h)
    · obtain ⟨⟨input, r1⟩, h1, h⟩ := bind_eq_ok.1 h
      cases h
      exact behindHead (ih h1)
    · exact behindHead (takes_limit h)
    · exact behindHead (takes_setOp _ h)
    · exact behindHead (takes_setOp _ h)
    · exact behindHead (takes_setOp _ h)
    · exact behindHead (takes_foreach h)
    · exact behindHead (takes_join h)
    · exact takes_reference h

/-! ## Statements -/

/-- Reads a statement that is not a loop, without its semicolon. -/
def simple (rest : Rest) : Except Halt (Statement × Rest) :=
  match keyword? rest with
  | some .DUMP => do
    let (e, rest) ← expr rest.tail
    return (.dump e, rest)
  | some .DESCRIBE => do
    let (name, rest) ← identifier rest.tail
    return (.describe name, rest)
  | some .EXPLAIN => do
    let (name, rest) ← identifier rest.tail
    return (.explain name, rest)
  | _ => do
    let (target, rest) ← identifier rest
    let rest ← mark .equals rest
    let (e, rest) ← expr rest
    return (.assign target e, rest)

/-- Reads something and the semicolon behind it. -/
def ended {α : Type} (read : Rest → Except Halt (α × Rest)) (rest : Rest) :
    Except Halt (α × Rest) := do
  let (a, rest) ← read rest
  let rest ← mark .semicolon rest
  return (a, rest)

theorem takes_simple : Takes simple := by
  intro rest s behind h
  have tail : rest.tail.length ≤ rest.length := by simp
  unfold simple at h
  split at h
  · obtain ⟨⟨e, r1⟩, h1, h⟩ := bind_eq_ok.1 h
    cases h
    have := takes_expr h1
    omega
  · obtain ⟨⟨name, r1⟩, h1, h⟩ := bind_eq_ok.1 h
    cases h
    have := takes_tokenAs _ _ h1
    omega
  · obtain ⟨⟨name, r1⟩, h1, h⟩ := bind_eq_ok.1 h
    cases h
    have := takes_tokenAs _ _ h1
    omega
  · obtain ⟨⟨target, r1⟩, h1, h⟩ := bind_eq_ok.1 h
    obtain ⟨r2, h2, h⟩ := bind_eq_ok.1 h
    obtain ⟨⟨e, r3⟩, h3, h⟩ := bind_eq_ok.1 h
    cases h
    have := takes_tokenAs _ _ h1
    have := length_mark h2
    have := takes_expr h3
    dsimp only at *
    omega

theorem Takes.ended {α : Type} {read : Rest → Except Halt (α × Rest)} (takes : Takes read) :
    Takes (ended read) := by
  intro rest a behind h
  obtain ⟨⟨a, r1⟩, h1, h⟩ := bind_eq_ok.1 h
  obtain ⟨r2, h2, h⟩ := bind_eq_ok.1 h
  cases h
  have := takes h1
  have := length_mark h2
  dsimp only at *
  omega

/-- Reads statements to the end of the text.  `done` holds the statements that were read since the
innermost open loop began, latest first, and `outer` those in front of each open loop. -/
def statements (outer : List Program) (done : Program) : Rest → Except Halt Program
  | [] => if outer.isEmpty then .ok done.reverse else refuse [] .openLoop
  | lexeme :: rest =>
    match lexeme.token.keyword?, outer with
    | some .DO, outer => statements (done :: outer) [] rest
    | some .WHILE, around :: outer =>
      match _h : ended expr rest with
      | .error halt => .error halt
      | .ok (condition, next) => statements outer (.doWhile done.reverse condition :: around) next
    | _, outer =>
      match _h : ended simple (lexeme :: rest) with
      | .error halt => .error halt
      | .ok (s, next) => statements outer (s :: done) next
termination_by rest => rest.length
decreasing_by
  · simp
  · have := takes_expr.ended _h
    simp only [List.length_cons]
    omega
  · exact takes_simple.ended _h

/-- Where and why reading stopped, given the place behind the text. -/
def Halt.toRefusal (halt : Halt) (finish : Position) : Refusal :=
  ⟨(halt.lexeme.map Lexeme.place).getD finish, halt.complaint⟩

/-- Reads a whole program. -/
def program (source : Lexed) : Except Refusal Program :=
  (statements [] [] source.lexemes).mapError (·.toRefusal source.finish)

/-- Reads a text that is one expression. -/
def wholeExpr (source : Lexed) : Except Refusal Expr :=
  Except.mapError (·.toRefusal source.finish) do
    let (e, rest) ← expr source.lexemes
    match rest with
    | [] => return e
    | lexeme :: rest => refuse (lexeme :: rest) (.leftOver lexeme.token)

end Parser

/-- Reads a program. -/
def Program.parse (text : String) : Except Refusal Program := do
  Parser.program (← lex text)

/-- Reads an expression. -/
def Expr.parse (text : String) : Except Refusal Expr := do
  Parser.wholeExpr (← lex text)

end BagQuery
