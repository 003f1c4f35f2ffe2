import BagQuery.Program.Parser
import BagQuery.Proofs.Grammar

/-!
# Reading is exact

`Parser.reads_exactly` says that the readers of programs and of expressions give what the grammar
has the tokens say, and refuse the tokens that say nothing.

A reader is described by what it takes from the front of the tokens: `Passes ts rest behind` says
that `rest` is `behind` with the tokens `ts` in front, and `Reads` that a reader takes just the
tokens of what it gives.  Some readers look one token further than they take: a column name goes on
at a period, and a choice of columns at an `AS`.  They are exact as long as what is left for others
is `Clear` of these two, which the token that must follow ensures each time.

The loops that are open around a place are closed by the tokens behind it (`Closes`); that is what
a run of `statements` finds.
-/

namespace BagQuery

open Grammar

namespace Parser

/-! ## Taking tokens -/

/-- The tokens stand in front of what is left. -/
def Passes (ts : List Token) (rest behind : Rest) : Prop :=
  ∃ front, rest = front ++ behind ∧ front.map Lexeme.token = ts

variable {ts us : List Token} {t : Token} {rest mid behind : Rest}

theorem passes_nil : Passes [] rest behind ↔ rest = behind := by
  constructor
  · rintro ⟨front, rfl, h⟩
    rw [List.map_eq_nil_iff.1 h]
    rfl
  · rintro rfl
    exact ⟨[], rfl, rfl⟩

theorem passes_one :
    Passes [t] rest behind ↔ ∃ lexeme, rest = lexeme :: behind ∧ lexeme.token = t := by
  constructor
  · rintro ⟨front, rfl, h⟩
    obtain ⟨lexeme, rfl, htoken⟩ := List.map_eq_singleton_iff.1 h
    exact ⟨lexeme, rfl, htoken⟩
  · rintro ⟨lexeme, rfl, rfl⟩
    exact ⟨[lexeme], rfl, rfl⟩

theorem passes_append :
    Passes (ts ++ us) rest behind ↔ ∃ mid, Passes ts rest mid ∧ Passes us mid behind := by
  constructor
  · rintro ⟨front, rfl, h⟩
    obtain ⟨first, second, rfl, rfl, rfl⟩ := List.map_eq_append_iff.1 h
    exact ⟨second ++ behind, ⟨first, List.append_assoc .., rfl⟩, second, rfl, rfl⟩
  · rintro ⟨_, ⟨first, rfl, rfl⟩, second, rfl, rfl⟩
    exact ⟨first ++ second, (List.append_assoc ..).symm, List.map_append⟩

theorem Passes.trans (h : Passes ts rest mid) (h' : Passes us mid behind) :
    Passes (ts ++ us) rest behind :=
  passes_append.2 ⟨mid, h, h'⟩

theorem passes_cons :
    Passes (t :: ts) rest behind ↔ ∃ mid, Passes [t] rest mid ∧ Passes ts mid behind := by
  rw [← passes_append, List.singleton_append]

theorem passes_lexeme :
    Passes (t :: ts) rest behind ↔
      ∃ place mid, rest = ⟨t, place⟩ :: mid ∧ Passes ts mid behind := by
  rw [passes_cons]
  constructor
  · rintro ⟨mid, h, hmid⟩
    obtain ⟨⟨_, place⟩, rfl, rfl⟩ := passes_one.1 h
    exact ⟨place, mid, rfl, hmid⟩
  · rintro ⟨place, mid, rfl, hmid⟩
    exact ⟨mid, passes_one.2 ⟨_, rfl, rfl⟩, hmid⟩

theorem Passes.cons (h : Passes [t] rest mid) (h' : Passes ts mid behind) :
    Passes (t :: ts) rest behind :=
  passes_cons.2 ⟨mid, h, h'⟩

theorem Passes.tokens (h : Passes ts rest behind) :
    rest.map Lexeme.token = ts ++ behind.map Lexeme.token := by
  obtain ⟨front, rfl, rfl⟩ := h
  exact List.map_append

theorem passes_end : Passes ts rest [] ↔ rest.map Lexeme.token = ts := by
  constructor
  · rintro ⟨front, rfl, rfl⟩
    rw [List.append_nil]
  · intro h
    exact ⟨rest, (List.append_nil _).symm, h⟩

/-! ## Single tokens -/

theorem startsWith_iff {m : Mark} : startsWith m rest = true ↔ Passes [.mark m] rest rest.tail := by
  cases rest with
  | nil => simp [startsWith, passes_one]
  | cons lexeme rest => simp [startsWith, passes_one]

theorem token_keyword?_eq_some_iff {k : Keyword} : t.keyword? = some k ↔ t = k.token := by
  cases t <;> simp [Token.keyword?, Keyword.token, Keyword.ofString?_eq_some_iff]

theorem keyword?_eq_some_iff {k : Keyword} :
    keyword? rest = some k ↔ Passes [k.token] rest rest.tail := by
  cases rest with
  | nil => simp [keyword?, passes_one]
  | cons lexeme rest => simp [keyword?, passes_one, token_keyword?_eq_some_iff]

theorem Passes.eq_tail (h : Passes [t] rest behind) : rest.tail = behind := by
  obtain ⟨lexeme, rfl, -⟩ := passes_one.1 h
  rfl

theorem Passes.mark_next {m : Mark} (h : Passes [.mark m] rest behind) :
    startsWith m rest = true :=
  startsWith_iff.2 (h.eq_tail ▸ h)

theorem Passes.mark_not_next {m : Mark} (ht : t ≠ .mark m) (h : Passes [t] rest behind) :
    ¬startsWith m rest = true := by
  obtain ⟨⟨_, place⟩, rfl, rfl⟩ := passes_one.1 h
  intro hm
  obtain ⟨_, heq, htoken⟩ := passes_one.1 (startsWith_iff.1 hm)
  obtain ⟨rfl, -⟩ := List.cons.inj heq
  exact ht htoken

theorem mark_eq_ok_iff {m : Mark} : mark m rest = .ok behind ↔ Passes [.mark m] rest behind := by
  unfold mark
  constructor
  · intro h
    split at h
    · next hm =>
      cases h
      exact startsWith_iff.1 hm
    · cases h
  · intro h
    rw [if_pos h.mark_next, h.eq_tail]

theorem Passes.keyword_next {k : Keyword} (h : Passes [k.token] rest behind) :
    keyword? rest = some k :=
  keyword?_eq_some_iff.2 (h.eq_tail ▸ h)

theorem keyword_eq_ok_iff {k : Keyword} :
    keyword k rest = .ok behind ↔ Passes [k.token] rest behind := by
  unfold keyword
  constructor
  · intro h
    split at h
    · next hk =>
      cases h
      exact keyword?_eq_some_iff.1 hk
    · cases h
  · intro h
    rw [if_pos h.keyword_next, h.eq_tail]

theorem tokenAs_eq_ok_iff {α : Type} {what : Expected} {meaning : Token → Option α} {a : α} :
    tokenAs what meaning rest = .ok (a, behind) ↔
      ∃ t, meaning t = some a ∧ Passes [t] rest behind := by
  unfold tokenAs
  constructor
  · intro h
    split at h
    · cases h
    · next lexeme rest =>
      split at h
      · next a hmeaning =>
        cases h
        exact ⟨lexeme.token, hmeaning, passes_one.2 ⟨lexeme, rfl, rfl⟩⟩
      · cases h
  · rintro ⟨t, hmeaning, h⟩
    obtain ⟨lexeme, rfl, rfl⟩ := passes_one.1 h
    dsimp only
    rw [hmeaning]

theorem isName_iff {text : String} : IsName text ↔ Keyword.ofString? text = none := by
  rw [Option.eq_none_iff_forall_ne_some]
  simp [Keyword.ofString?_eq_some_iff, IsName]

theorem name?_eq_some_iff {name : String} :
    t.name? = some name ↔ IsName name ∧ t = .word name := by
  cases t with
  | word text =>
    rw [Token.name?, Option.ite_none_left_eq_some, Option.isSome_iff_ne_none, Decidable.not_not,
      ← isName_iff, Option.some_inj, Token.word.injEq]
    constructor
    · rintro ⟨hname, rfl⟩
      exact ⟨hname, rfl⟩
    · rintro ⟨hname, rfl⟩
      exact ⟨hname, rfl⟩
  | _ => simp [Token.name?]

theorem nameAs_eq_ok_iff {what : Expected} {name : String} :
    tokenAs what Token.name? rest = .ok (name, behind) ↔
      IsName name ∧ Passes [.word name] rest behind := by
  rw [tokenAs_eq_ok_iff]
  constructor
  · rintro ⟨t, ht, h⟩
    obtain ⟨hname, rfl⟩ := name?_eq_some_iff.1 ht
    exact ⟨hname, h⟩
  · rintro ⟨hname, h⟩
    exact ⟨.word name, name?_eq_some_iff.2 ⟨hname, rfl⟩, h⟩

theorem identifier_eq_ok_iff {name : String} :
    identifier rest = .ok (name, behind) ↔ IsName name ∧ Passes [.word name] rest behind :=
  nameAs_eq_ok_iff

theorem string_eq_ok_iff {s : String} :
    string rest = .ok (s, behind) ↔ Passes [.string s] rest behind := by
  rw [string, tokenAs_eq_ok_iff]
  constructor
  · rintro ⟨t, hs, h⟩
    cases t <;> cases hs
    exact h
  · intro h
    exact ⟨.string s, rfl, h⟩

theorem columnType_eq_ok_iff {type : ColumnType} :
    columnType rest = .ok (type, behind) ↔ Passes [.word type.name] rest behind := by
  constructor
  · intro h
    obtain ⟨⟨name, next⟩, hname, h⟩ := bind_eq_ok.1 h
    obtain ⟨-, hname⟩ := nameAs_eq_ok_iff.1 hname
    dsimp only at h
    split at h
    · next htype =>
      cases h
      rwa [← ColumnType.ofName?_eq_some htype]
    · cases h
  · intro h
    have hname : IsName type.name := by
      rw [isName_iff]
      cases type <;> rfl
    refine bind_eq_ok.2 ⟨(type.name, behind), nameAs_eq_ok_iff.2 ⟨hname, h⟩, ?_⟩
    dsimp only
    rw [ColumnType.ofName?_name]
    rfl

theorem count_eq_ok_iff {n : Nat} :
    count rest = .ok (n, behind) ↔
      ∃ i : Int64, 0 ≤ i.toInt ∧ n = i.toInt.toNat ∧ Passes [.number i] rest behind := by
  constructor
  · intro h
    obtain ⟨⟨i, next⟩, hi, h⟩ := bind_eq_ok.1 h
    obtain ⟨t, ht, hpasses⟩ := tokenAs_eq_ok_iff.1 hi
    dsimp only at h
    split at h
    · cases h
    · next hcount =>
      cases h
      cases t <;> cases ht
      exact ⟨_, Int.not_lt.1 hcount, rfl, hpasses⟩
  · rintro ⟨i, hcount, rfl, h⟩
    refine bind_eq_ok.2 ⟨(i, behind), tokenAs_eq_ok_iff.2 ⟨.number i, rfl, h⟩, ?_⟩
    exact if_neg (Int.not_lt.2 hcount)

/-! ## Readers -/

/-- Neither a column name nor a choice of columns goes on. -/
def Clear (rest : Rest) : Prop :=
  ¬startsWith .period rest = true ∧ keyword? rest ≠ some .AS

theorem clear_nil : Clear [] := ⟨Bool.false_ne_true, nofun⟩

theorem Passes.clear {m : Mark} (hm : m ≠ .period) (h : Passes [.mark m] rest behind) :
    Clear rest := by
  refine ⟨h.mark_not_next (mt Token.mark.inj hm), ?_⟩
  obtain ⟨⟨_, place⟩, rfl, rfl⟩ := passes_one.1 h
  nofun

/-- If something else goes on behind it, the reader takes the tokens of what it gives. -/
def Reads {α : Type} (read : Rest → Except Halt (α × Rest)) (Written : α → List Token → Prop) :
    Prop :=
  ∀ {rest : Rest} {a : α} {behind : Rest}, Clear behind →
    (read rest = .ok (a, behind) ↔ ∃ ts, Written a ts ∧ Passes ts rest behind)

/-! ### Lists -/

theorem dottedTail_sound {more : String} (h : dottedTail rest = .ok (more, behind)) :
    ∃ names ts, Continued .period Name names ts ∧
      (∀ first, ".".intercalate (first :: names) = first ++ more) ∧ Passes ts rest behind := by
  fun_induction dottedTail rest generalizing more behind with
  | case1 => cases h
  | case2 rest hperiod name next hname ih =>
    obtain ⟨⟨more, last⟩, hmore, h⟩ := bind_eq_ok.1 h
    cases h
    obtain ⟨names, ts, hnames, htext, hpasses⟩ := ih hmore
    obtain ⟨hname, hnext⟩ := identifier_eq_ok_iff.1 hname
    refine ⟨name :: names, _, .cons (.mk hname) hnames, fun first => ?_,
      (startsWith_iff.1 hperiod).cons (hnext.trans hpasses)⟩
    rw [String.intercalate_cons_cons, htext name]
    simp only [String.append_assoc]
  | case3 =>
    cases h
    refine ⟨[], [], .nil, fun first => ?_, passes_nil.2 rfl⟩
    rw [String.intercalate_singleton, String.append_empty]

theorem dottedTail_complete {names : List String} (hnames : Continued .period Name names ts)
    (h : Passes ts rest behind) (hbehind : Clear behind) :
    ∃ more, dottedTail rest = .ok (more, behind) ∧
      ∀ first, ".".intercalate (first :: names) = first ++ more := by
  induction hnames generalizing rest with
  | nil =>
    obtain rfl := passes_nil.1 h
    refine ⟨"", ?_, fun first => ?_⟩
    · rw [dottedTail, if_neg hbehind.1]
    · rw [String.intercalate_singleton, String.append_empty]
  | @cons name names _ _ hname _ ih =>
    obtain ⟨r1, hperiod, h⟩ := passes_cons.1 h
    obtain ⟨r2, hr2, h⟩ := passes_append.1 h
    obtain ⟨more, hmore, htext⟩ := ih h
    refine ⟨"." ++ name ++ more, ?_, fun first => ?_⟩
    · cases hname with
      | mk hname =>
        rw [dottedTail, if_pos hperiod.mark_next, hperiod.eq_tail]
        split
        · next herror =>
          rw [identifier_eq_ok_iff.2 ⟨hname, hr2⟩] at herror
          cases herror
        · next hok =>
          rw [identifier_eq_ok_iff.2 ⟨hname, hr2⟩] at hok
          cases hok
          exact bind_eq_ok.2 ⟨_, hmore, rfl⟩
    · rw [String.intercalate_cons_cons, htext name]
      simp only [String.append_assoc]

theorem reads_columnName : Reads columnName ColumnName := by
  intro rest name behind hbehind
  constructor
  · intro h
    obtain ⟨⟨first, r1⟩, h1, h⟩ := bind_eq_ok.1 h
    obtain ⟨⟨more, r2⟩, h2, h⟩ := bind_eq_ok.1 h
    cases h
    obtain ⟨hfirst, h1⟩ := identifier_eq_ok_iff.1 h1
    obtain ⟨names, ts, hnames, htext, h2⟩ := dottedTail_sound h2
    refine ⟨_, ?_, h1.trans h2⟩
    rw [← htext]
    exact .mk (.mk (.mk hfirst) hnames)
  · rintro ⟨_, ⟨⟨⟨hfirst⟩, hnames⟩⟩, h⟩
    obtain ⟨r1, h1, h⟩ := passes_append.1 h
    obtain ⟨more, hmore, htext⟩ := dottedTail_complete hnames h hbehind
    refine bind_eq_ok.2 ⟨_, identifier_eq_ok_iff.2 ⟨hfirst, h1⟩, bind_eq_ok.2 ⟨_, hmore, ?_⟩⟩
    rw [htext]
    rfl

section Lists

variable {α : Type} {item : Rest → Except Halt (α × Rest)} {takes : Takes item}
  {Item : α → List Token → Prop}

theorem listTail_stop (h : ¬startsWith .comma rest = true) :
    listTail item takes rest = .ok ([], rest) := by
  fun_cases listTail item takes rest with
  | case1 hcomma => exact absurd hcomma h
  | case2 hcomma => exact absurd hcomma h
  | case3 => rfl

theorem listTail_next {a : α} {as : List α} (hcomma : Passes [.mark .comma] rest mid)
    (ha : item mid = .ok (a, behind)) {last : Rest}
    (has : listTail item takes behind = .ok (as, last)) :
    listTail item takes rest = .ok (a :: as, last) := by
  obtain rfl := hcomma.eq_tail
  fun_cases listTail item takes rest with
  | case1 _ halt herror =>
    rw [ha] at herror
    cases herror
  | case2 _ a behind hok =>
    rw [ha] at hok
    cases hok
    exact bind_eq_ok.2 ⟨_, has, rfl⟩
  | case3 hend => exact absurd hcomma.mark_next hend

theorem Clear.of_listTail {as : List α} (h : listTail item takes rest = .ok (as, behind))
    (hbehind : Clear behind) : Clear rest := by
  by_cases hcomma : startsWith .comma rest
  · exact Passes.clear (by decide) (startsWith_iff.1 hcomma)
  · rw [listTail_stop hcomma] at h
    cases h
    exact hbehind

theorem listTail_sound (hitem : Reads item Item) {as : List α}
    (h : listTail item takes rest = .ok (as, behind)) (hbehind : Clear behind) :
    ∃ ts, Continued .comma Item as ts ∧ Passes ts rest behind := by
  fun_induction listTail item takes rest generalizing as behind with
  | case1 => cases h
  | case2 rest hcomma a next ha ih =>
    obtain ⟨⟨more, last⟩, hmore, h⟩ := bind_eq_ok.1 h
    cases h
    obtain ⟨us, hus, hpasses⟩ := ih hmore hbehind
    obtain ⟨ts, hts, hnext⟩ := (hitem (.of_listTail hmore hbehind)).1 ha
    exact ⟨_, .cons hts hus, (startsWith_iff.1 hcomma).cons (hnext.trans hpasses)⟩
  | case3 =>
    cases h
    exact ⟨[], .nil, passes_nil.2 rfl⟩

theorem Passes.clear_of_continued {as : List α} (has : Continued .comma Item as ts)
    (h : Passes ts rest behind) (hbehind : Clear behind) : Clear rest := by
  cases has with
  | nil => exact passes_nil.1 h ▸ hbehind
  | cons =>
    obtain ⟨mid, hcomma, -⟩ := passes_cons.1 h
    exact hcomma.clear (by decide)

theorem listTail_complete (hitem : Reads item Item) {as : List α}
    (has : Continued .comma Item as ts) (h : Passes ts rest behind) (hbehind : Clear behind)
    (hend : ¬startsWith .comma behind = true) :
    listTail item takes rest = .ok (as, behind) := by
  induction has generalizing rest with
  | nil =>
    obtain rfl := passes_nil.1 h
    exact listTail_stop hend
  | cons ha has ih =>
    obtain ⟨r1, hcomma, h⟩ := passes_cons.1 h
    obtain ⟨r2, hr2, h⟩ := passes_append.1 h
    exact listTail_next hcomma ((hitem (h.clear_of_continued has hbehind)).2 ⟨_, ha, hr2⟩) (ih h)

theorem parenthesized_eq_ok_iff (hitem : Reads item Item) {as : List α} :
    parenthesized item takes rest = .ok (as, behind) ↔
      ∃ ts, Parenthesized Item as ts ∧ Passes ts rest behind := by
  constructor
  · intro h
    obtain ⟨r1, h1, h⟩ := bind_eq_ok.1 h
    obtain ⟨⟨a, r2⟩, h2, h⟩ := bind_eq_ok.1 h
    obtain ⟨⟨as, r3⟩, h3, h⟩ := bind_eq_ok.1 h
    obtain ⟨r4, h4, h⟩ := bind_eq_ok.1 h
    cases h
    replace h1 := mark_eq_ok_iff.1 h1
    replace h4 := mark_eq_ok_iff.1 h4
    have hclear := h4.clear (by decide)
    obtain ⟨ts, hts, h2⟩ := (hitem (.of_listTail h3 hclear)).1 h2
    obtain ⟨us, hus, h3⟩ := listTail_sound hitem h3 hclear
    exact ⟨_, .mk (.mk hts hus), h1.cons ((h2.trans h3).trans h4)⟩
  · rintro ⟨_, ⟨⟨ha, has⟩⟩, h⟩
    obtain ⟨r1, h1, h⟩ := passes_cons.1 h
    obtain ⟨r3, h3, h4⟩ := passes_append.1 h
    obtain ⟨r2, h2, h3⟩ := passes_append.1 h3
    have hclear := h4.clear (by decide)
    have hend := h4.mark_not_next (m := .comma) (by decide)
    have h2 := (hitem (h3.clear_of_continued has hclear)).2 ⟨_, ha, h2⟩
    have h3 : listTail item takes r2 = .ok (_, r3) :=
      listTail_complete hitem has h3 hclear hend
    refine bind_eq_ok.2 ⟨r1, mark_eq_ok_iff.2 h1, bind_eq_ok.2 ⟨_, h2, ?_⟩⟩
    exact bind_eq_ok.2 ⟨_, h3, bind_eq_ok.2 ⟨behind, mark_eq_ok_iff.2 h4, rfl⟩⟩

end Lists

/-! ### Columns and rows -/

theorem reads_column : Reads column Column.Written := by
  intro rest c behind _
  constructor
  · intro h
    obtain ⟨⟨name, r1⟩, h1, h⟩ := bind_eq_ok.1 h
    obtain ⟨r2, h2, h⟩ := bind_eq_ok.1 h
    obtain ⟨⟨type, r3⟩, h3, h⟩ := bind_eq_ok.1 h
    cases h
    replace h2 := mark_eq_ok_iff.1 h2
    obtain ⟨ts, hname, h1⟩ := (reads_columnName (h2.clear (by decide))).1 h1
    exact ⟨_, .mk hname type, h1.trans (h2.cons (columnType_eq_ok_iff.1 h3))⟩
  · rintro ⟨_, ⟨hname, type⟩, h⟩
    obtain ⟨r1, h1, h⟩ := passes_append.1 h
    obtain ⟨r2, h2, h3⟩ := passes_cons.1 h
    refine bind_eq_ok.2 ⟨_, (reads_columnName (h2.clear (by decide))).2 ⟨_, hname, h1⟩, ?_⟩
    exact bind_eq_ok.2 ⟨r2, mark_eq_ok_iff.2 h2, bind_eq_ok.2 ⟨_, columnType_eq_ok_iff.2 h3, rfl⟩⟩

theorem columns_eq_ok_iff {cs : List Column} :
    columns rest = .ok (cs, behind) ↔
      ∃ ts, Parenthesized Column.Written cs ts ∧ Passes ts rest behind :=
  parenthesized_eq_ok_iff reads_column

theorem columnNames_eq_ok_iff {names : List String} :
    columnNames rest = .ok (names, behind) ↔
      ∃ ts, Parenthesized ColumnName names ts ∧ Passes ts rest behind :=
  parenthesized_eq_ok_iff reads_columnName

theorem reads_literal : Reads literal Atom.Written := by
  intro rest a behind _
  rw [literal, tokenAs_eq_ok_iff]
  constructor
  · rintro ⟨t, ha, h⟩
    cases t with
    | number i =>
      cases ha
      exact ⟨_, .int i, h⟩
    | string s =>
      cases ha
      exact ⟨_, .string s, h⟩
    | _ => cases ha
  · rintro ⟨_, ha, h⟩
    cases ha with
    | int i => exact ⟨.number i, rfl, h⟩
    | string s => exact ⟨.string s, rfl, h⟩

theorem row_eq_ok_iff {t : Tuple} :
    row rest = .ok (t, behind) ↔ ∃ ts, t.Written ts ∧ Passes ts rest behind := by
  constructor
  · intro h
    obtain ⟨⟨atoms, r1⟩, h1, h⟩ := bind_eq_ok.1 h
    cases h
    obtain ⟨ts, hatoms, h1⟩ := (parenthesized_eq_ok_iff reads_literal).1 h1
    exact ⟨ts, .mk hatoms, h1⟩
  · rintro ⟨ts, ⟨hatoms⟩, h⟩
    exact bind_eq_ok.2 ⟨_, (parenthesized_eq_ok_iff reads_literal).2 ⟨ts, hatoms, h⟩, rfl⟩

theorem rowsTail_sound {rows : List Tuple} (h : rowsTail rest = .ok (rows, behind)) :
    ∃ ts, Separated .comma Tuple.Written rows ts ∧
      Passes (ts ++ [.mark .rightBracket]) rest behind := by
  fun_induction rowsTail rest generalizing rows behind with
  | case1 => cases h
  | case2 rest t next ht hbracket =>
    cases h
    obtain ⟨ts, ht, hnext⟩ := row_eq_ok_iff.1 ht
    refine ⟨_, .mk ht .nil, ?_⟩
    rw [List.append_nil]
    exact hnext.trans (startsWith_iff.1 hbracket)
  | case3 => cases h
  | case4 rest t next ht _ last hcomma ih =>
    obtain ⟨⟨more, r⟩, hmore, h⟩ := bind_eq_ok.1 h
    cases h
    obtain ⟨ts, ht, hnext⟩ := row_eq_ok_iff.1 ht
    obtain ⟨_, ⟨ha, has⟩, hpasses⟩ := ih hmore
    refine ⟨_, .mk ht (.cons ha has), ?_⟩
    rw [List.append_assoc]
    exact hnext.trans ((mark_eq_ok_iff.1 hcomma).cons hpasses)

theorem rowsTail_complete {rows : List Tuple} (hrows : Continued .comma Tuple.Written rows us)
    {t : Tuple} (ht : t.Written ts)
    (h : Passes (ts ++ us ++ [.mark .rightBracket]) rest behind) :
    rowsTail rest = .ok (t :: rows, behind) := by
  induction hrows generalizing t ts rest with
  | nil =>
    rw [List.append_nil] at h
    obtain ⟨mid, hmid, hbracket⟩ := passes_append.1 h
    have hrow := row_eq_ok_iff.2 ⟨ts, ht, hmid⟩
    unfold rowsTail
    split
    · next herror =>
      rw [hrow] at herror
      cases herror
    · next hok =>
      rw [hrow] at hok
      cases hok
      rw [if_pos hbracket.mark_next, hbracket.eq_tail]
  | cons ha has ih =>
    rw [List.append_assoc] at h
    obtain ⟨mid, hmid, h⟩ := passes_append.1 h
    obtain ⟨next, hcomma, h⟩ := passes_cons.1 h
    have hrow := row_eq_ok_iff.2 ⟨ts, ht, hmid⟩
    unfold rowsTail
    split
    · next herror =>
      rw [hrow] at herror
      cases herror
    · next hok =>
      rw [hrow] at hok
      cases hok
      rw [if_neg (hcomma.mark_not_next (by decide))]
      split
      · next herror =>
        rw [mark_eq_ok_iff.2 hcomma] at herror
        cases herror
      · next hok =>
        rw [mark_eq_ok_iff.2 hcomma] at hok
        cases hok
        exact bind_eq_ok.2 ⟨_, ih ha h, rfl⟩

theorem rows_eq_ok_iff {ts : List Tuple} :
    rows rest = .ok (ts, behind) ↔ ∃ us, Rows ts us ∧ Passes us rest behind := by
  constructor
  · intro h
    obtain ⟨mid, hbracket, h⟩ := bind_eq_ok.1 h
    replace hbracket := mark_eq_ok_iff.1 hbracket
    split at h
    · next hclose =>
      cases h
      exact ⟨_, .none, hbracket.cons (startsWith_iff.1 hclose)⟩
    · obtain ⟨us, hrows, h⟩ := rowsTail_sound h
      exact ⟨_, .some hrows, hbracket.cons h⟩
  · rintro ⟨us, hrows, h⟩
    cases hrows with
    | none =>
      obtain ⟨mid, hbracket, hclose⟩ := passes_cons.1 h
      refine bind_eq_ok.2 ⟨mid, mark_eq_ok_iff.2 hbracket, ?_⟩
      rw [if_pos hclose.mark_next, hclose.eq_tail]
      rfl
    | some hrows =>
      obtain ⟨mid, hbracket, h⟩ := passes_cons.1 h
      obtain ⟨ha, has⟩ := hrows
      refine bind_eq_ok.2 ⟨mid, mark_eq_ok_iff.2 hbracket, ?_⟩
      rw [if_neg, rowsTail_complete has ha h]
      rw [List.append_assoc] at h
      obtain ⟨⟨hatoms⟩⟩ := ha
      obtain ⟨next, hopen, -⟩ := passes_cons.1 h
      exact hopen.mark_not_next (by decide)

/-! ### Expressions -/

theorem reads_joinSide : Reads joinSide JoinSide.Written := by
  intro rest side behind hbehind
  constructor
  · intro h
    obtain ⟨⟨name, r1⟩, h1, h⟩ := bind_eq_ok.1 h
    obtain ⟨r2, h2, h⟩ := bind_eq_ok.1 h
    obtain ⟨hname, h1⟩ := identifier_eq_ok_iff.1 h1
    replace h2 := keyword_eq_ok_iff.1 h2
    split at h
    · obtain ⟨⟨columns, r3⟩, h3, h⟩ := bind_eq_ok.1 h
      cases h
      obtain ⟨ts, hcolumns, h3⟩ := columnNames_eq_ok_iff.1 h3
      exact ⟨_, .parenthesized hname hcolumns, h1.cons (h2.cons h3)⟩
    · obtain ⟨⟨column, r3⟩, h3, h⟩ := bind_eq_ok.1 h
      cases h
      obtain ⟨ts, hcolumn, h3⟩ := (reads_columnName hbehind).1 h3
      exact ⟨_, .single hname hcolumn, h1.cons (h2.cons h3)⟩
  · rintro ⟨_, hside, h⟩
    cases hside with
    | parenthesized hname hcolumns =>
      obtain ⟨r1, h1, h⟩ := passes_cons.1 h
      obtain ⟨r2, h2, h3⟩ := passes_cons.1 h
      refine bind_eq_ok.2 ⟨_, identifier_eq_ok_iff.2 ⟨hname, h1⟩, ?_⟩
      refine bind_eq_ok.2 ⟨r2, keyword_eq_ok_iff.2 h2, ?_⟩
      have hnames := columnNames_eq_ok_iff.2 ⟨_, hcolumns, h3⟩
      obtain ⟨hseparated⟩ := hcolumns
      obtain ⟨_, hopen, -⟩ := passes_cons.1 h3
      rw [if_pos hopen.mark_next]
      exact bind_eq_ok.2 ⟨_, hnames, rfl⟩
    | single hname hcolumn =>
      obtain ⟨r1, h1, h⟩ := passes_cons.1 h
      obtain ⟨r2, h2, h3⟩ := passes_cons.1 h
      refine bind_eq_ok.2 ⟨_, identifier_eq_ok_iff.2 ⟨hname, h1⟩, ?_⟩
      refine bind_eq_ok.2 ⟨r2, keyword_eq_ok_iff.2 h2, ?_⟩
      have hname := (reads_columnName hbehind).2 ⟨_, hcolumn, h3⟩
      obtain ⟨⟨⟨hfirst⟩, hnames⟩⟩ := hcolumn
      obtain ⟨_, hword, -⟩ := passes_cons.1 h3
      rw [if_neg (hword.mark_not_next (m := .leftParen) Token.noConfusion)]
      exact bind_eq_ok.2 ⟨_, hname, rfl⟩

theorem load_eq_ok_iff {x : Expr} :
    load rest = .ok (x, behind) ↔
      ∃ path columns ts, Parenthesized Column.Written columns ts ∧ x = .load path columns ∧
        Passes (.string path :: Keyword.AS.token :: ts) rest behind := by
  constructor
  · intro h
    obtain ⟨⟨path, r1⟩, h1, h⟩ := bind_eq_ok.1 h
    obtain ⟨r2, h2, h⟩ := bind_eq_ok.1 h
    obtain ⟨⟨columns, r3⟩, h3, h⟩ := bind_eq_ok.1 h
    cases h
    obtain ⟨ts, hcolumns, h3⟩ := columns_eq_ok_iff.1 h3
    refine ⟨path, columns, ts, hcolumns, rfl, ?_⟩
    exact (string_eq_ok_iff.1 h1).cons ((keyword_eq_ok_iff.1 h2).cons h3)
  · rintro ⟨path, columns, ts, hcolumns, rfl, h⟩
    obtain ⟨r1, h1, h⟩ := passes_cons.1 h
    obtain ⟨r2, h2, h3⟩ := passes_cons.1 h
    refine bind_eq_ok.2 ⟨_, string_eq_ok_iff.2 h1, bind_eq_ok.2 ⟨r2, keyword_eq_ok_iff.2 h2, ?_⟩⟩
    exact bind_eq_ok.2 ⟨_, columns_eq_ok_iff.2 ⟨ts, hcolumns, h3⟩, rfl⟩

theorem table_eq_ok_iff {x : Expr} :
    table rest = .ok (x, behind) ↔
      ∃ tuples columns ts us, Rows tuples ts ∧ Parenthesized Column.Written columns us ∧
        x = .table tuples columns ∧ Passes (ts ++ Keyword.AS.token :: us) rest behind := by
  constructor
  · intro h
    obtain ⟨⟨tuples, r1⟩, h1, h⟩ := bind_eq_ok.1 h
    obtain ⟨r2, h2, h⟩ := bind_eq_ok.1 h
    obtain ⟨⟨columns, r3⟩, h3, h⟩ := bind_eq_ok.1 h
    cases h
    obtain ⟨ts, htuples, h1⟩ := rows_eq_ok_iff.1 h1
    obtain ⟨us, hcolumns, h3⟩ := columns_eq_ok_iff.1 h3
    refine ⟨tuples, columns, ts, us, htuples, hcolumns, rfl, ?_⟩
    exact h1.trans ((keyword_eq_ok_iff.1 h2).cons h3)
  · rintro ⟨tuples, columns, ts, us, htuples, hcolumns, rfl, h⟩
    obtain ⟨r1, h1, h⟩ := passes_append.1 h
    obtain ⟨r2, h2, h3⟩ := passes_cons.1 h
    refine bind_eq_ok.2 ⟨_, rows_eq_ok_iff.2 ⟨ts, htuples, h1⟩, ?_⟩
    refine bind_eq_ok.2 ⟨r2, keyword_eq_ok_iff.2 h2, ?_⟩
    exact bind_eq_ok.2 ⟨_, columns_eq_ok_iff.2 ⟨us, hcolumns, h3⟩, rfl⟩

theorem limit_eq_ok_iff {x : Expr} :
    limit rest = .ok (x, behind) ↔
      ∃ input, ∃ count : Int64, IsName input ∧ 0 ≤ count.toInt ∧
        x = .limit input count.toInt.toNat ∧
        Passes [.word input, .mark .comma, .number count] rest behind := by
  constructor
  · intro h
    obtain ⟨⟨input, r1⟩, h1, h⟩ := bind_eq_ok.1 h
    obtain ⟨r2, h2, h⟩ := bind_eq_ok.1 h
    obtain ⟨⟨n, r3⟩, h3, h⟩ := bind_eq_ok.1 h
    cases h
    obtain ⟨hinput, h1⟩ := identifier_eq_ok_iff.1 h1
    obtain ⟨count, hcount, rfl, hnumber⟩ := count_eq_ok_iff.1 h3
    exact ⟨input, count, hinput, hcount, rfl, h1.cons ((mark_eq_ok_iff.1 h2).cons hnumber)⟩
  · rintro ⟨input, count, hinput, hcount, rfl, h⟩
    obtain ⟨r1, h1, h⟩ := passes_cons.1 h
    obtain ⟨r2, h2, h3⟩ := passes_cons.1 h
    refine bind_eq_ok.2 ⟨_, identifier_eq_ok_iff.2 ⟨hinput, h1⟩, ?_⟩
    refine bind_eq_ok.2 ⟨r2, mark_eq_ok_iff.2 h2, ?_⟩
    exact bind_eq_ok.2 ⟨_, count_eq_ok_iff.2 ⟨count, hcount, rfl, h3⟩, rfl⟩

theorem setOp_eq_ok_iff {op : SetOp} {x : Expr} :
    setOp op rest = .ok (x, behind) ↔
      ∃ left right, IsName left ∧ IsName right ∧ x = .setOp op left right ∧
        Passes [.word left, .mark .comma, .word right] rest behind := by
  constructor
  · intro h
    obtain ⟨⟨left, r1⟩, h1, h⟩ := bind_eq_ok.1 h
    obtain ⟨r2, h2, h⟩ := bind_eq_ok.1 h
    obtain ⟨⟨right, r3⟩, h3, h⟩ := bind_eq_ok.1 h
    cases h
    obtain ⟨hleft, h1⟩ := identifier_eq_ok_iff.1 h1
    obtain ⟨hright, h3⟩ := identifier_eq_ok_iff.1 h3
    exact ⟨left, right, hleft, hright, rfl, h1.cons ((mark_eq_ok_iff.1 h2).cons h3)⟩
  · rintro ⟨left, right, hleft, hright, rfl, h⟩
    obtain ⟨r1, h1, h⟩ := passes_cons.1 h
    obtain ⟨r2, h2, h3⟩ := passes_cons.1 h
    refine bind_eq_ok.2 ⟨_, identifier_eq_ok_iff.2 ⟨hleft, h1⟩, ?_⟩
    refine bind_eq_ok.2 ⟨r2, mark_eq_ok_iff.2 h2, ?_⟩
    exact bind_eq_ok.2 ⟨_, identifier_eq_ok_iff.2 ⟨hright, h3⟩, rfl⟩

theorem foreach_eq_ok_iff {x : Expr} (hbehind : Clear behind) :
    foreach rest = .ok (x, behind) ↔
      ∃ input names ts, IsName input ∧ Parenthesized ColumnName names ts ∧
        ((x = .foreach input names none ∧
            Passes (.word input :: Keyword.EMIT.token :: ts) rest behind) ∨
          ∃ columns us, Parenthesized Column.Written columns us ∧
            x = .foreach input names (some columns) ∧
            Passes (.word input :: Keyword.EMIT.token :: (ts ++ Keyword.AS.token :: us))
              rest behind) := by
  constructor
  · intro h
    obtain ⟨⟨input, r1⟩, h1, h⟩ := bind_eq_ok.1 h
    obtain ⟨r2, h2, h⟩ := bind_eq_ok.1 h
    obtain ⟨⟨names, r3⟩, h3, h⟩ := bind_eq_ok.1 h
    obtain ⟨hinput, h1⟩ := identifier_eq_ok_iff.1 h1
    replace h2 := keyword_eq_ok_iff.1 h2
    obtain ⟨ts, hnames, h3⟩ := columnNames_eq_ok_iff.1 h3
    refine ⟨input, names, ts, hinput, hnames, ?_⟩
    dsimp only at h
    split at h
    · next has =>
      obtain ⟨⟨columns, r4⟩, h4, h⟩ := bind_eq_ok.1 h
      cases h
      obtain ⟨us, hcolumns, h4⟩ := columns_eq_ok_iff.1 h4
      have has := keyword?_eq_some_iff.1 has
      exact .inr ⟨columns, us, hcolumns, rfl, h1.cons (h2.cons (h3.trans (has.cons h4)))⟩
    · cases h
      exact .inl ⟨rfl, h1.cons (h2.cons h3)⟩
  · rintro ⟨input, names, ts, hinput, hnames, h⟩
    obtain ⟨rfl, h⟩ | ⟨columns, us, hcolumns, rfl, h⟩ := h
    · obtain ⟨r1, h1, h⟩ := passes_cons.1 h
      obtain ⟨r2, h2, h3⟩ := passes_cons.1 h
      refine bind_eq_ok.2 ⟨_, identifier_eq_ok_iff.2 ⟨hinput, h1⟩, ?_⟩
      refine bind_eq_ok.2 ⟨r2, keyword_eq_ok_iff.2 h2, ?_⟩
      refine bind_eq_ok.2 ⟨_, columnNames_eq_ok_iff.2 ⟨ts, hnames, h3⟩, ?_⟩
      exact if_neg hbehind.2
    · obtain ⟨r1, h1, h⟩ := passes_cons.1 h
      obtain ⟨r2, h2, h⟩ := passes_cons.1 h
      obtain ⟨r3, h3, h⟩ := passes_append.1 h
      obtain ⟨r4, h4, h5⟩ := passes_cons.1 h
      refine bind_eq_ok.2 ⟨_, identifier_eq_ok_iff.2 ⟨hinput, h1⟩, ?_⟩
      refine bind_eq_ok.2 ⟨r2, keyword_eq_ok_iff.2 h2, ?_⟩
      refine bind_eq_ok.2 ⟨_, columnNames_eq_ok_iff.2 ⟨ts, hnames, h3⟩, ?_⟩
      dsimp only
      rw [if_pos h4.keyword_next, h4.eq_tail]
      exact bind_eq_ok.2 ⟨_, columns_eq_ok_iff.2 ⟨us, hcolumns, h5⟩, rfl⟩

theorem join_eq_ok_iff {x : Expr} (hbehind : Clear behind) :
    join rest = .ok (x, behind) ↔
      ∃ left right ts us, JoinSide.Written left ts ∧ JoinSide.Written right us ∧
        x = .join left right ∧ Passes (ts ++ .mark .comma :: us) rest behind := by
  constructor
  · intro h
    obtain ⟨⟨left, r1⟩, h1, h⟩ := bind_eq_ok.1 h
    obtain ⟨r2, h2, h⟩ := bind_eq_ok.1 h
    obtain ⟨⟨right, r3⟩, h3, h⟩ := bind_eq_ok.1 h
    cases h
    replace h2 := mark_eq_ok_iff.1 h2
    obtain ⟨ts, hleft, h1⟩ := (reads_joinSide (h2.clear (by decide))).1 h1
    obtain ⟨us, hright, h3⟩ := (reads_joinSide hbehind).1 h3
    exact ⟨left, right, ts, us, hleft, hright, rfl, h1.trans (h2.cons h3)⟩
  · rintro ⟨left, right, ts, us, hleft, hright, rfl, h⟩
    obtain ⟨r1, h1, h⟩ := passes_append.1 h
    obtain ⟨r2, h2, h3⟩ := passes_cons.1 h
    refine bind_eq_ok.2 ⟨_, (reads_joinSide (h2.clear (by decide))).2 ⟨ts, hleft, h1⟩, ?_⟩
    refine bind_eq_ok.2 ⟨r2, mark_eq_ok_iff.2 h2, ?_⟩
    exact bind_eq_ok.2 ⟨_, (reads_joinSide hbehind).2 ⟨us, hright, h3⟩, rfl⟩

theorem reference_eq_ok_iff {x : Expr} :
    reference rest = .ok (x, behind) ↔
      ∃ name, IsName name ∧ x = .reference name ∧ Passes [.word name] rest behind := by
  constructor
  · intro h
    obtain ⟨⟨name, r1⟩, h1, h⟩ := bind_eq_ok.1 h
    cases h
    obtain ⟨hname, h1⟩ := identifier_eq_ok_iff.1 h1
    exact ⟨name, hname, rfl, h1⟩
  · rintro ⟨name, hname, rfl, h⟩
    exact bind_eq_ok.2 ⟨_, identifier_eq_ok_iff.2 ⟨hname, h⟩, rfl⟩

theorem expr_sound {x : Expr} (h : expr rest = .ok (x, behind)) (hbehind : Clear behind) :
    ∃ ts, x.Written ts ∧ Passes ts rest behind := by
  induction rest generalizing x with
  | nil =>
    obtain ⟨name, hname, rfl, htaken⟩ := reference_eq_ok_iff.1 h
    exact ⟨_, .reference hname, htaken⟩
  | cons lexeme rest ih =>
    -- where a keyword was found, it is the first token
    have first {k : Keyword} (hk : lexeme.token.keyword? = some k) :
        Passes [k.token] (lexeme :: rest) rest :=
      keyword?_eq_some_iff.1 hk
    have operands (op : SetOp) (hk : lexeme.token.keyword? = some op.keyword)
        (h : setOp op rest = .ok (x, behind)) :
        ∃ ts, x.Written ts ∧ Passes ts (lexeme :: rest) behind := by
      obtain ⟨left, right, hleft, hright, rfl, htaken⟩ := setOp_eq_ok_iff.1 h
      exact ⟨_, .setOp op hleft hright, (first hk).cons htaken⟩
    unfold expr at h
    split at h
    · next hk =>
      obtain ⟨path, columns, ts, hcolumns, rfl, htaken⟩ := load_eq_ok_iff.1 h
      exact ⟨_, .load path hcolumns, (first hk).cons htaken⟩
    · next hk =>
      obtain ⟨tuples, columns, ts, us, htuples, hcolumns, rfl, htaken⟩ := table_eq_ok_iff.1 h
      exact ⟨_, .table htuples hcolumns, (first hk).cons htaken⟩
    · next hk =>
      obtain ⟨⟨input, r1⟩, h1, h⟩ := bind_eq_ok.1 h
      cases h
      obtain ⟨ts, hinput, htaken⟩ := ih h1
      exact ⟨_, .distinct hinput, (first hk).cons htaken⟩
    · next hk =>
      obtain ⟨input, count, hinput, hcount, rfl, htaken⟩ := limit_eq_ok_iff.1 h
      exact ⟨_, .limit hinput hcount, (first hk).cons htaken⟩
    · next hk => exact operands .union hk h
    · next hk => exact operands .intersect hk h
    · next hk => exact operands .diff hk h
    · next hk =>
      obtain ⟨input, names, ts, hinput, hnames, hform⟩ := (foreach_eq_ok_iff hbehind).1 h
      obtain ⟨rfl, htaken⟩ | ⟨columns, us, hcolumns, rfl, htaken⟩ := hform
      · exact ⟨_, .foreach hinput hnames, (first hk).cons htaken⟩
      · exact ⟨_, .rename hinput hnames hcolumns, (first hk).cons htaken⟩
    · next hk =>
      obtain ⟨left, right, ts, us, hleft, hright, rfl, htaken⟩ := (join_eq_ok_iff hbehind).1 h
      exact ⟨_, .join hleft hright, (first hk).cons htaken⟩
    · obtain ⟨name, hname, rfl, htaken⟩ := reference_eq_ok_iff.1 h
      exact ⟨_, .reference hname, htaken⟩

theorem expr_complete {x : Expr} (hx : x.Written ts) (h : Passes ts rest behind)
    (hbehind : Clear behind) : expr rest = .ok (x, behind) := by
  induction hx generalizing rest with
  | load path hcolumns =>
    obtain ⟨place, mid, rfl, hmid⟩ := passes_lexeme.1 h
    exact load_eq_ok_iff.2 ⟨path, _, _, hcolumns, rfl, hmid⟩
  | table htuples hcolumns =>
    obtain ⟨place, mid, rfl, hmid⟩ := passes_lexeme.1 h
    exact table_eq_ok_iff.2 ⟨_, _, _, _, htuples, hcolumns, rfl, hmid⟩
  | @reference name hname =>
    obtain ⟨place, mid, rfl, hmid⟩ := passes_lexeme.1 h
    have hkeyword : (Token.word name).keyword? = none := isName_iff.1 hname
    unfold expr
    rw [hkeyword]
    exact reference_eq_ok_iff.2 ⟨name, hname, rfl, h⟩
  | distinct _ ih =>
    obtain ⟨place, mid, rfl, hmid⟩ := passes_lexeme.1 h
    exact bind_eq_ok.2 ⟨_, ih hmid, rfl⟩
  | limit hinput hcount =>
    obtain ⟨place, mid, rfl, hmid⟩ := passes_lexeme.1 h
    exact limit_eq_ok_iff.2 ⟨_, _, hinput, hcount, rfl, hmid⟩
  | @setOp op left right hleft hright =>
    obtain ⟨place, mid, rfl, hmid⟩ := passes_lexeme.1 h
    have hread : setOp op mid = .ok (.setOp op left right, behind) :=
      setOp_eq_ok_iff.2 ⟨left, right, hleft, hright, rfl, hmid⟩
    cases op <;> exact hread
  | foreach hinput hnames =>
    obtain ⟨place, mid, rfl, hmid⟩ := passes_lexeme.1 h
    exact (foreach_eq_ok_iff hbehind).2 ⟨_, _, _, hinput, hnames, .inl ⟨rfl, hmid⟩⟩
  | rename hinput hnames hcolumns =>
    obtain ⟨place, mid, rfl, hmid⟩ := passes_lexeme.1 h
    exact (foreach_eq_ok_iff hbehind).2
      ⟨_, _, _, hinput, hnames, .inr ⟨_, _, hcolumns, rfl, hmid⟩⟩
  | join hleft hright =>
    obtain ⟨place, mid, rfl, hmid⟩ := passes_lexeme.1 h
    exact (join_eq_ok_iff hbehind).2 ⟨_, _, _, _, hleft, hright, rfl, hmid⟩

theorem reads_expr : Reads expr Expr.Written :=
  fun hbehind => ⟨fun h => expr_sound h hbehind, fun ⟨_, hx, h⟩ => expr_complete hx h hbehind⟩

/-! ## Statements -/

theorem simple_sound {s : Statement} (h : simple rest = .ok (s, behind)) (hbehind : Clear behind) :
    ∃ ts, s.Plain ts ∧ Passes ts rest behind := by
  unfold simple at h
  split at h
  · next hk =>
    obtain ⟨⟨x, r1⟩, h1, h⟩ := bind_eq_ok.1 h
    cases h
    obtain ⟨ts, hx, htaken⟩ := (reads_expr hbehind).1 h1
    exact ⟨_, .dump hx, (keyword?_eq_some_iff.1 hk).cons htaken⟩
  · next hk =>
    obtain ⟨⟨name, r1⟩, h1, h⟩ := bind_eq_ok.1 h
    cases h
    obtain ⟨hname, htaken⟩ := identifier_eq_ok_iff.1 h1
    exact ⟨_, .describe hname, (keyword?_eq_some_iff.1 hk).cons htaken⟩
  · next hk =>
    obtain ⟨⟨name, r1⟩, h1, h⟩ := bind_eq_ok.1 h
    cases h
    obtain ⟨hname, htaken⟩ := identifier_eq_ok_iff.1 h1
    exact ⟨_, .explain hname, (keyword?_eq_some_iff.1 hk).cons htaken⟩
  · obtain ⟨⟨target, r1⟩, h1, h⟩ := bind_eq_ok.1 h
    obtain ⟨r2, h2, h⟩ := bind_eq_ok.1 h
    obtain ⟨⟨x, r3⟩, h3, h⟩ := bind_eq_ok.1 h
    cases h
    obtain ⟨htarget, h1⟩ := identifier_eq_ok_iff.1 h1
    obtain ⟨ts, hx, h3⟩ := (reads_expr hbehind).1 h3
    exact ⟨_, .assign htarget hx, h1.cons ((mark_eq_ok_iff.1 h2).cons h3)⟩

theorem simple_complete {s : Statement} (hs : s.Plain ts) (h : Passes ts rest behind)
    (hbehind : Clear behind) : simple rest = .ok (s, behind) := by
  cases hs with
  | @assign target x ts htarget hx =>
    obtain ⟨mid, h1, h⟩ := passes_cons.1 h
    obtain ⟨r2, h2, h3⟩ := passes_cons.1 h
    have hkeyword : keyword? rest = none := by
      obtain ⟨lexeme, rfl, htoken⟩ := passes_one.1 h1
      exact (congrArg Token.keyword? htoken).trans (isName_iff.1 htarget)
    unfold simple
    rw [hkeyword]
    refine bind_eq_ok.2 ⟨_, identifier_eq_ok_iff.2 ⟨htarget, h1⟩, ?_⟩
    refine bind_eq_ok.2 ⟨r2, mark_eq_ok_iff.2 h2, ?_⟩
    exact bind_eq_ok.2 ⟨_, (reads_expr hbehind).2 ⟨ts, hx, h3⟩, rfl⟩
  | dump hx =>
    obtain ⟨place, mid, rfl, hmid⟩ := passes_lexeme.1 h
    exact bind_eq_ok.2 ⟨_, (reads_expr hbehind).2 ⟨_, hx, hmid⟩, rfl⟩
  | describe hname =>
    obtain ⟨place, mid, rfl, hmid⟩ := passes_lexeme.1 h
    exact bind_eq_ok.2 ⟨_, identifier_eq_ok_iff.2 ⟨hname, hmid⟩, rfl⟩
  | explain hname =>
    obtain ⟨place, mid, rfl, hmid⟩ := passes_lexeme.1 h
    exact bind_eq_ok.2 ⟨_, identifier_eq_ok_iff.2 ⟨hname, hmid⟩, rfl⟩

theorem reads_simple : Reads simple Statement.Plain :=
  fun hbehind => ⟨fun h => simple_sound h hbehind, fun ⟨_, hs, h⟩ => simple_complete hs h hbehind⟩

theorem ended_eq_ok_iff {α : Type} {read : Rest → Except Halt (α × Rest)}
    {Written : α → List Token → Prop} (hread : Reads read Written) {a : α} :
    ended read rest = .ok (a, behind) ↔
      ∃ ts, Written a ts ∧ Passes (ts ++ [.mark .semicolon]) rest behind := by
  constructor
  · intro h
    obtain ⟨⟨a, r1⟩, h1, h⟩ := bind_eq_ok.1 h
    obtain ⟨r2, h2, h⟩ := bind_eq_ok.1 h
    cases h
    replace h2 := mark_eq_ok_iff.1 h2
    obtain ⟨ts, ha, h1⟩ := (hread (h2.clear (by decide))).1 h1
    exact ⟨ts, ha, h1.trans h2⟩
  · rintro ⟨ts, ha, h⟩
    obtain ⟨r1, h1, h2⟩ := passes_append.1 h
    refine bind_eq_ok.2 ⟨_, (hread (h2.clear (by decide))).2 ⟨ts, ha, h1⟩, ?_⟩
    exact bind_eq_ok.2 ⟨behind, mark_eq_ok_iff.2 h2, rfl⟩

/-! ### Loops -/

variable {outer : List Program} {done : Program}

theorem statements_do (h : Passes [Keyword.DO.token] rest mid) :
    statements outer done rest = statements (done :: outer) [] mid := by
  obtain ⟨⟨_, place⟩, rfl, rfl⟩ := passes_one.1 h
  exact statements.eq_2 _ _ _ _ rfl

theorem statements_while {around : Program} {condition : Expr}
    (hcondition : condition.Written ts)
    (h : Passes (Keyword.WHILE.token :: (ts ++ [.mark .semicolon])) rest behind) :
    statements (around :: outer) done rest =
      statements outer (.doWhile done.reverse condition :: around) behind := by
  obtain ⟨place, mid, rfl, hmid⟩ := passes_lexeme.1 h
  have hread := (ended_eq_ok_iff reads_expr).2 ⟨ts, hcondition, hmid⟩
  rw [statements.eq_3 _ _ _ _ _ rfl]
  split
  · next herror =>
    rw [hread] at herror
    cases herror
  · next hok =>
    rw [hread] at hok
    cases hok
    rfl

theorem plain_head {s : Statement} (hs : s.Plain ts) :
    ∃ t us, ts = t :: us ∧ t.keyword? ≠ some .DO ∧ t.keyword? ≠ some .WHILE := by
  cases hs with
  | @assign target _ _ htarget =>
    have hkeyword : (Token.word target).keyword? = none := isName_iff.1 htarget
    refine ⟨_, _, rfl, ?_, ?_⟩
    · rw [hkeyword]
      nofun
    · rw [hkeyword]
      nofun
  | dump => exact ⟨_, _, rfl, by decide, by decide⟩
  | describe => exact ⟨_, _, rfl, by decide, by decide⟩
  | explain => exact ⟨_, _, rfl, by decide, by decide⟩

theorem statements_plain {s : Statement} (hs : s.Plain ts)
    (h : Passes (ts ++ [.mark .semicolon]) rest behind) :
    statements outer done rest = statements outer (s :: done) behind := by
  have hread := (ended_eq_ok_iff reads_simple).2 ⟨ts, hs, h⟩
  obtain ⟨t, us, rfl, hdo, hwhile⟩ := plain_head hs
  obtain ⟨place, mid, rfl, -⟩ := passes_lexeme.1 h
  rw [statements.eq_4 _ _ _ _ hdo fun _ _ hk _ => hwhile hk]
  split
  · next herror =>
    rw [hread] at herror
    cases herror
  · next hok =>
    rw [hread] at hok
    cases hok
    rfl

mutual

/-- **A written statement is read, whatever loops are open around it.** -/
theorem statements_statement {s : Statement} {ts : List Token} (hs : s.Written ts)
    (outer : List Program) (done : Program) {rest behind : Rest} (h : Passes ts rest behind) :
    statements outer done rest = statements outer (s :: done) behind := by
  cases hs with
  | plain hs => exact statements_plain hs h
  | @doWhile body condition _ _ hbody hcondition =>
    obtain ⟨r1, h1, h⟩ := passes_cons.1 h
    obtain ⟨r2, h2, h3⟩ := passes_append.1 h
    calc
      statements outer done rest = statements (done :: outer) [] r1 := statements_do h1
      _ = statements (done :: outer) body.reverse r2 := by
        rw [statements_program hbody (done :: outer) [] h2, List.append_nil]
      _ = statements outer (.doWhile body condition :: done) behind := by
        rw [statements_while hcondition h3, List.reverse_reverse]

/-- So are written statements one behind the other. -/
theorem statements_program {ss : Program} {ts : List Token} (hss : Program.Written ss ts)
    (outer : List Program) (done : Program) {rest behind : Rest} (h : Passes ts rest behind) :
    statements outer done rest = statements outer (ss.reverse ++ done) behind := by
  cases hss with
  | nil => rw [passes_nil.1 h, List.reverse_nil, List.nil_append]
  | cons hs hrest =>
    obtain ⟨mid, h1, h2⟩ := passes_append.1 h
    rw [statements_statement hs outer done h1, statements_program hrest outer _ h2,
      List.reverse_cons, List.append_assoc, List.singleton_append]

end

/-- The tokens close the open loops and end the program `ss`, of which the statements in `done`
and `outer` have been read. -/
def Closes : List Program → Program → List Token → Program → Prop
  | [], done, ts, ss => ∃ more, Program.Written more ts ∧ ss = done.reverse ++ more
  | around :: outer, done, ts, ss =>
    ∃ more condition us vs ws, Program.Written more us ∧ Expr.Written condition vs ∧
      ts = us ++ Keyword.WHILE.token :: (vs ++ .mark .semicolon :: ws) ∧
      Closes outer (.doWhile (done.reverse ++ more) condition :: around) ws ss

theorem Closes.cons {s : Statement} {ss : Program} (hs : s.Written us)
    (h : Closes outer (s :: done) ts ss) : Closes outer done (us ++ ts) ss := by
  cases outer with
  | nil =>
    obtain ⟨more, hmore, rfl⟩ := h
    refine ⟨s :: more, .cons hs hmore, ?_⟩
    rw [List.reverse_cons, List.append_assoc, List.singleton_append]
  | cons around outer =>
    obtain ⟨more, condition, vs, ws, xs, hmore, hcondition, rfl, h⟩ := h
    refine ⟨s :: more, condition, _, ws, xs, .cons hs hmore, hcondition, ?_, ?_⟩
    · rw [List.append_assoc]
    · rwa [List.reverse_cons, List.append_assoc, List.singleton_append] at h

theorem statements_sound {ss : Program} (h : statements outer done rest = .ok ss) :
    Closes outer done (rest.map Lexeme.token) ss := by
  fun_induction statements outer done rest with
  | case1 outer done houter =>
    cases h
    obtain rfl := List.isEmpty_iff.1 houter
    exact ⟨[], .nil, (List.append_nil _).symm⟩
  | case2 => cases h
  | case3 done lexeme rest outer hk ih =>
    obtain ⟨more, condition, us, vs, ws, hmore, hcondition, htokens, hcloses⟩ := ih h
    have hloop := Closes.cons (.doWhile hmore hcondition) hcloses
    rw [List.map_cons, token_keyword?_eq_some_iff.1 hk, htokens]
    simpa only [List.cons_append, List.nil_append, List.append_assoc] using hloop
  | case4 => cases h
  | case5 done lexeme rest around outer hk condition next hcondition ih =>
    obtain ⟨vs, hcondition, hnext⟩ := (ended_eq_ok_iff reads_expr).1 hcondition
    rw [List.unattach_reverse, List.unattach_attach] at ih
    refine ⟨[], condition, [], vs, next.map Lexeme.token, .nil, hcondition, ?_, ?_⟩
    · rw [List.map_cons, token_keyword?_eq_some_iff.1 hk, hnext.tokens]
      simp only [List.nil_append, List.append_assoc, List.singleton_append]
    · rw [List.append_nil]
      exact ih h
  | case6 => cases h
  | case7 outer done lexeme rest s next hs _ _ ih =>
    obtain ⟨us, hs, hnext⟩ := (ended_eq_ok_iff reads_simple).1 hs
    rw [hnext.tokens]
    exact (ih h).cons (.plain hs)

/-! ## Whole texts -/

theorem mapError_eq_ok_iff {α ε ε' : Type} {f : ε → ε'} {x : Except ε α} {a : α} :
    x.mapError f = .ok a ↔ x = .ok a := by
  cases x with
  | error e => exact ⟨nofun, nofun⟩
  | ok b => exact ⟨fun h => by cases h; rfl, fun h => by cases h; rfl⟩

theorem program_eq_ok_iff {source : Lexed} {ss : Program} :
    program source = .ok ss ↔ Program.Written ss source.tokens := by
  rw [program, mapError_eq_ok_iff]
  constructor
  · intro h
    obtain ⟨more, hmore, rfl⟩ := statements_sound h
    exact hmore
  · intro h
    rw [statements_program h [] [] (passes_end.2 rfl), statements, List.append_nil,
      List.reverse_reverse]
    rfl

theorem wholeExpr_eq_ok_iff {source : Lexed} {x : Expr} :
    wholeExpr source = .ok x ↔ x.Written source.tokens := by
  have hall : wholeExpr source = .ok x ↔ expr source.lexemes = .ok (x, []) := by
    rw [wholeExpr, mapError_eq_ok_iff]
    constructor
    · intro h
      obtain ⟨⟨y, rest⟩, hread, h⟩ := bind_eq_ok.1 h
      cases rest with
      | nil =>
        cases h
        exact hread
      | cons lexeme rest => cases h
    · intro h
      exact bind_eq_ok.2 ⟨_, h, rfl⟩
  rw [hall, reads_expr clear_nil]
  constructor
  · rintro ⟨ts, hx, h⟩
    rwa [Lexed.tokens, passes_end.1 h]
  · intro hx
    exact ⟨_, hx, passes_end.2 rfl⟩

/-- The outcome is what the tokens say, of which there is one thing at most, or a complaint about
the text if they say nothing. -/
def Tells {α : Type} (Written : α → List Token → Prop) (ts : List Token)
    (outcome : Except Refusal α) : Prop :=
  (∀ a, outcome = .ok a ↔ Written a ts) ∧ (∀ a b, Written a ts → Written b ts → a = b) ∧
    ((∀ a, ¬Written a ts) → ∃ r, outcome = .error r ∧ r.toError.kind = .malformed)

theorem Tells.of_ok_iff {α : Type} {Written : α → List Token → Prop}
    {outcome : Except Refusal α} (h : ∀ a, outcome = .ok a ↔ Written a ts) :
    Tells Written ts outcome := by
  refine ⟨h, fun a b ha hb => ?_, fun hnone => ?_⟩
  · exact Except.ok.inj (((h a).2 ha).symm.trans ((h b).2 hb))
  · cases houtcome : outcome with
    | ok a => exact absurd ((h a).1 houtcome) (hnone a)
    | error r => exact ⟨r, rfl, rfl⟩

/-- **Reading is exact.**  The tokens of a text are read as the program, or the expression, that
they are by the grammar; they are no two different ones; and if they are none, the text is
refused. -/
theorem reads_exactly (source : Lexed) :
    Tells Program.Written source.tokens (program source) ∧
      Tells Expr.Written source.tokens (wholeExpr source) ∧
      ∀ text, lex text = .ok source →
        Program.parse text = program source ∧ Expr.parse text = wholeExpr source := by
  refine ⟨.of_ok_iff fun ss => program_eq_ok_iff, .of_ok_iff fun x => wholeExpr_eq_ok_iff, ?_⟩
  intro text h
  rw [Program.parse, Expr.parse, h]
  exact ⟨rfl, rfl⟩

/-- A loop over a join that gives one column without parentheses is what its tokens say; a list
that ends in a comma says nothing. -/
theorem reads_exactly_loop :
    (∃ source, lex "DO A = JOIN A BY x.y, B BY (z); WHILE A;" = .ok source ∧
      Program.Written
        [.doWhile [.assign "A" (.join ⟨"A", ["x.y"]⟩ ⟨"B", ["z"]⟩)] (.reference "A")]
        source.tokens) ∧
      ∃ source, lex "DUMP FOREACH A EMIT (x,);" = .ok source ∧
        (∀ ss, ¬Program.Written ss source.tokens) ∧
        ∃ r, program source = .error r ∧ r.toError.kind = .malformed := by
  constructor
  · have hlex : (lex "DO A = JOIN A BY x.y, B BY (z); WHILE A;").isOk = true := by
      decide +kernel
    cases hsource : lex "DO A = JOIN A BY x.y, B BY (z); WHILE A;" with
    | error r =>
      rw [hsource] at hlex
      cases hlex
    | ok source =>
      obtain ⟨⟨hiff, -⟩, -, htext⟩ := reads_exactly source
      refine ⟨source, rfl, (hiff _).1 ?_⟩
      rw [← (htext _ hsource).1]
      with_unfolding_all rfl
  · have hlex : (lex "DUMP FOREACH A EMIT (x,);").isOk = true := by decide +kernel
    cases hsource : lex "DUMP FOREACH A EMIT (x,);" with
    | error r =>
      rw [hsource] at hlex
      cases hlex
    | ok source =>
      obtain ⟨⟨hiff, -, hrefused⟩, -, htext⟩ := reads_exactly source
      have hparse : (Program.parse "DUMP FOREACH A EMIT (x,);").isOk = false := by
        decide +kernel
      have hnone (ss : Program) : ¬Program.Written ss source.tokens := by
        intro hss
        rw [(htext _ hsource).1, (hiff ss).2 hss] at hparse
        cases hparse
      exact ⟨source, rfl, hnone, hrefused hnone⟩

end Parser

end BagQuery
