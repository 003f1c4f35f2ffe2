/-!
# Keywords

The reserved words of the language.  A keyword is written in capitals exactly, so `load` is a name.
-/

namespace BagQuery

/-- The reserved words, each named by its spelling. -/
inductive Keyword where
  | AS | BY | DESCRIBE | DIFF | DISTINCT | DO | DUMP | EMIT | EXPLAIN | FOREACH | INTERSECT | JOIN
  | LIMIT | LOAD | TABLE | UNION | WHILE
deriving DecidableEq, Repr

namespace Keyword

/-- How a keyword is spelled. -/
def spelling : Keyword → String
  | AS => "AS"
  | BY => "BY"
  | DESCRIBE => "DESCRIBE"
  | DIFF => "DIFF"
  | DISTINCT => "DISTINCT"
  | DO => "DO"
  | DUMP => "DUMP"
  | EMIT => "EMIT"
  | EXPLAIN => "EXPLAIN"
  | FOREACH => "FOREACH"
  | INTERSECT => "INTERSECT"
  | JOIN => "JOIN"
  | LIMIT => "LIMIT"
  | LOAD => "LOAD"
  | TABLE => "TABLE"
  | UNION => "UNION"
  | WHILE => "WHILE"

/-- All keywords, in the order of their spellings. -/
def all : List Keyword :=
  [AS, BY, DESCRIBE, DIFF, DISTINCT, DO, DUMP, EMIT, EXPLAIN, FOREACH, INTERSECT, JOIN, LIMIT,
    LOAD, TABLE, UNION, WHILE]

/-- The keyword that a word is. -/
def ofString? (s : String) : Option Keyword := all.find? (·.spelling == s)

/-- The table is sorted, so a search in it by halves finds what one from its front finds. -/
theorem pairwise_all : all.Pairwise (·.spelling < ·.spelling) := by decide

theorem mem_all (k : Keyword) : k ∈ all := by cases k <;> decide

theorem ofString?_spelling (k : Keyword) : ofString? k.spelling = some k := by
  cases k <;> rfl

theorem ofString?_eq_some_iff {s : String} {k : Keyword} :
    ofString? s = some k ↔ s = k.spelling := by
  constructor
  · intro h
    have := List.find?_some h
    exact (beq_iff_eq.1 this).symm
  · rintro rfl
    exact ofString?_spelling k

end Keyword

end BagQuery
