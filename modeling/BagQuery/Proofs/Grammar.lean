import BagQuery.Program.Lexer
import BagQuery.Program.Expr

/-!
# The grammar

Which tokens a program may consist of, as a relation between what a program says and the tokens
that say it (`Program.Written`).  There is no reading here: no place in a text, no token that is
looked at before it is taken, and no order in which alternatives are tried.

* A name is a word that is not a keyword; a column name is names with periods between them.
* Lists in parentheses have at least one item, commas between the items, and no comma at the end.
* Every statement ends in a semicolon.

Each program is written in one way, but for a single column of a join, which may stand without its
parentheses (`JoinSide.Written`).
-/

namespace BagQuery

/-- The token of a keyword. -/
def Keyword.token (k : Keyword) : Token := .word k.spelling

/-- The tokens of a text, without their places. -/
def Lexed.tokens (source : Lexed) : List Token := source.lexemes.map Lexeme.token

namespace Grammar

variable {α : Type}

/-! ## Lists -/

/-- Items that go on a list, with the mark in front of each. -/
inductive Continued (m : Mark) (Item : α → List Token → Prop) : List α → List Token → Prop
  | nil : Continued m Item [] []
  | cons {a : α} {as : List α} {ts us : List Token} (ha : Item a ts)
      (has : Continued m Item as us) : Continued m Item (a :: as) (.mark m :: (ts ++ us))

/-- At least one item, with the mark between items. -/
inductive Separated (m : Mark) (Item : α → List Token → Prop) : List α → List Token → Prop
  | mk {a : α} {as : List α} {ts us : List Token} (ha : Item a ts)
      (has : Continued m Item as us) : Separated m Item (a :: as) (ts ++ us)

/-- At least one item in parentheses, with commas between items. -/
inductive Parenthesized (Item : α → List Token → Prop) : List α → List Token → Prop
  | mk {as : List α} {ts : List Token} (has : Separated .comma Item as ts) :
      Parenthesized Item as (.mark .leftParen :: (ts ++ [.mark .rightParen]))

/-! ## Names -/

/-- The word is not a keyword. -/
def IsName (word : String) : Prop := ∀ k : Keyword, word ≠ k.spelling

/-- A name. -/
inductive Name : String → List Token → Prop
  | mk {name : String} (hname : IsName name) : Name name [.word name]

/-- The name of a column: names with periods between them. -/
inductive ColumnName : String → List Token → Prop
  | mk {names : List String} {ts : List Token} (hnames : Separated .period Name names ts) :
      ColumnName (".".intercalate names) ts

end Grammar

open Grammar

/-! ## Columns and rows -/

/-- A column and its type, with a colon between them. -/
inductive Column.Written : Column → List Token → Prop
  | mk {name : String} {ts : List Token} (hname : ColumnName name ts) (type : ColumnType) :
      Column.Written ⟨name, type⟩ (ts ++ [.mark .colon, .word type.name])

/-- An integer or a string. -/
inductive Atom.Written : Atom → List Token → Prop
  | int (i : Int64) : Atom.Written (.int i) [.number i]
  | string (s : String) : Atom.Written (.string s) [.string s]

/-- The atoms of a tuple in parentheses. -/
inductive Tuple.Written : Tuple → List Token → Prop
  | mk {atoms : List Atom} {ts : List Token} (h : Parenthesized Atom.Written atoms ts) :
      Tuple.Written ⟨atoms⟩ ts

/-- Rows in brackets, with commas between them.  There may be none. -/
inductive Grammar.Rows : List Tuple → List Token → Prop
  | none : Rows [] [.mark .leftBracket, .mark .rightBracket]
  | some {rows : List Tuple} {ts : List Token} (h : Separated .comma Tuple.Written rows ts) :
      Rows rows (.mark .leftBracket :: (ts ++ [.mark .rightBracket]))

/-! ## Expressions -/

/-- A name and the columns to compare.  A single column may stand without parentheses. -/
inductive JoinSide.Written : JoinSide → List Token → Prop
  | parenthesized {name : String} {columns : List String} {ts : List Token} (hname : IsName name)
      (hcolumns : Parenthesized ColumnName columns ts) :
      JoinSide.Written ⟨name, columns⟩ (.word name :: Keyword.BY.token :: ts)
  | single {name column : String} {ts : List Token} (hname : IsName name)
      (hcolumn : ColumnName column ts) :
      JoinSide.Written ⟨name, [column]⟩ (.word name :: Keyword.BY.token :: ts)

/-- The keyword of a set operator. -/
def SetOp.keyword : SetOp → Keyword
  | union => .UNION
  | intersect => .INTERSECT
  | diff => .DIFF

/-- The tokens are the expression. -/
inductive Expr.Written : Expr → List Token → Prop
  | load (path : String) {columns : List Column} {ts : List Token}
      (hcolumns : Parenthesized Column.Written columns ts) :
      Expr.Written (.load path columns)
        (Keyword.LOAD.token :: .string path :: Keyword.AS.token :: ts)
  | table {rows : List Tuple} {columns : List Column} {ts us : List Token}
      (hrows : Rows rows ts) (hcolumns : Parenthesized Column.Written columns us) :
      Expr.Written (.table rows columns)
        (Keyword.TABLE.token :: (ts ++ Keyword.AS.token :: us))
  | reference {name : String} (hname : IsName name) : Expr.Written (.reference name) [.word name]
  | distinct {input : Expr} {ts : List Token} (hinput : input.Written ts) :
      Expr.Written (.distinct input) (Keyword.DISTINCT.token :: ts)
  /-- Counts are not negative. -/
  | limit {input : String} {count : Int64} (hinput : IsName input) (hcount : 0 ≤ count.toInt) :
      Expr.Written (.limit input count.toInt.toNat)
        [Keyword.LIMIT.token, .word input, .mark .comma, .number count]
  | setOp (op : SetOp) {left right : String} (hleft : IsName left) (hright : IsName right) :
      Expr.Written (.setOp op left right)
        [op.keyword.token, .word left, .mark .comma, .word right]
  | foreach {input : String} {names : List String} {ts : List Token} (hinput : IsName input)
      (hnames : Parenthesized ColumnName names ts) :
      Expr.Written (.foreach input names none)
        (Keyword.FOREACH.token :: .word input :: Keyword.EMIT.token :: ts)
  | rename {input : String} {names : List String} {columns : List Column} {ts us : List Token}
      (hinput : IsName input) (hnames : Parenthesized ColumnName names ts)
      (hcolumns : Parenthesized Column.Written columns us) :
      Expr.Written (.foreach input names (some columns))
        (Keyword.FOREACH.token :: .word input :: Keyword.EMIT.token ::
          (ts ++ Keyword.AS.token :: us))
  | join {left right : JoinSide} {ts us : List Token} (hleft : left.Written ts)
      (hright : right.Written us) :
      Expr.Written (.join left right) (Keyword.JOIN.token :: (ts ++ .mark .comma :: us))

/-! ## Statements -/

/-- The tokens are the statement, which is not a loop, without its semicolon. -/
inductive Statement.Plain : Statement → List Token → Prop
  | assign {target : String} {x : Expr} {ts : List Token} (htarget : IsName target)
      (hx : x.Written ts) : Plain (.assign target x) (.word target :: .mark .equals :: ts)
  | dump {x : Expr} {ts : List Token} (hx : x.Written ts) :
      Plain (.dump x) (Keyword.DUMP.token :: ts)
  | describe {name : String} (hname : IsName name) :
      Plain (.describe name) [Keyword.DESCRIBE.token, .word name]
  | explain {name : String} (hname : IsName name) :
      Plain (.explain name) [Keyword.EXPLAIN.token, .word name]

mutual

/-- The tokens are the statement. -/
inductive Statement.Written : Statement → List Token → Prop
  | plain {s : Statement} {ts : List Token} (hs : s.Plain ts) :
      Statement.Written s (ts ++ [.mark .semicolon])
  | doWhile {body : List Statement} {condition : Expr} {ts us : List Token}
      (hbody : Program.Written body ts) (hcondition : condition.Written us) :
      Statement.Written (.doWhile body condition)
        (Keyword.DO.token :: (ts ++ Keyword.WHILE.token :: (us ++ [.mark .semicolon])))

/-- The tokens are the statements. -/
inductive Program.Written : List Statement → List Token → Prop
  | nil : Program.Written [] []
  | cons {s : Statement} {rest : List Statement} {ts us : List Token} (hs : s.Written ts)
      (hrest : Program.Written rest us) : Program.Written (s :: rest) (ts ++ us)

end

end BagQuery
