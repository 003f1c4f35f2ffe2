import BagQuery.Proofs.QueryFaults
import BagQuery.Proofs.RecordText
import Mathlib.Data.List.TakeWhile

/-!
# Which lines are records

The format of records as rules, without the reader.  A numeral is a sign, or none, and digits
(`Numeral.Spells`), with the value that the core library gives the digits.  In the text of a string
every backslash starts an escape (`Record.SpellsString`).  A field holds an integer as a numeral
between blanks, and a string as its text (`Record.Holds`).  A line is a record of a schema when what
stands between its tabs are the fields of the columns, one of each (`Record.IsRecord`).

The reader takes such lines for the tuples that they hold, and refuses all other lines
(`Record.reads_records_only`).
-/

namespace BagQuery

open Attempt Text

namespace Text

/-! ## Blanks around a text -/

/-- What is between the blanks at both ends of a text. -/
theorem exists_trim (cs : List Char) : ∃ before behind, cs = before ++ trim cs ++ behind ∧
    (∀ c ∈ before, isBlank c = true) ∧ ∀ c ∈ behind, isBlank c = true := by
  refine ⟨cs.takeWhile isBlank, ((trimStart cs).reverse.takeWhile isBlank).reverse, ?_,
    fun c hc => ?_, fun c hc => ?_⟩
  · have hend : trim cs ++ ((trimStart cs).reverse.takeWhile isBlank).reverse = trimStart cs := by
      rw [trim, trimEnd, ← List.reverse_append, List.takeWhile_append_dropWhile,
        List.reverse_reverse]
    rw [List.append_assoc, hend, trimStart, List.takeWhile_append_dropWhile]
  · exact List.mem_takeWhile_imp hc
  · exact List.mem_takeWhile_imp (List.mem_reverse.1 hc)

theorem trim_between {before text behind : List Char} (hbefore : ∀ c ∈ before, isBlank c = true)
    (htext : ∀ c ∈ text, isBlank c = false) (hne : text ≠ [])
    (hbehind : ∀ c ∈ behind, isBlank c = true) : trim (before ++ text ++ behind) = text := by
  have hstart : trimStart (before ++ text ++ behind) = text ++ behind := by
    rw [trimStart, List.append_assoc, List.dropWhile_append_of_pos hbefore, List.dropWhile_append,
      dropWhile_isBlank_of_no_blank htext, if_neg (by simpa using hne)]
  have hbehind' : ∀ c ∈ behind.reverse, isBlank c = true :=
    fun c hc => hbehind c (List.mem_reverse.1 hc)
  have htext' : ∀ c ∈ text.reverse, isBlank c = false :=
    fun c hc => htext c (List.mem_reverse.1 hc)
  rw [trim, hstart, trimEnd, List.reverse_append, List.dropWhile_append_of_pos hbehind',
    dropWhile_isBlank_of_no_blank htext', List.reverse_reverse]

/-! ## Numerals -/

namespace Numeral

/-- At least one digit, and nothing else. -/
def Digits (cs : List Char) : Prop := cs ≠ [] ∧ ∀ c ∈ cs, c.isDigit = true

/-- The text is a numeral of the integer. -/
inductive Spells : List Char → Int → Prop
  | unsigned {ds : List Char} (h : Digits ds) : Spells ds (Nat.ofDigitChars 10 ds 0)
  | plus {ds : List Char} (h : Digits ds) : Spells ('+' :: ds) (Nat.ofDigitChars 10 ds 0)
  | minus {ds : List Char} (h : Digits ds) : Spells ('-' :: ds) (-(Nat.ofDigitChars 10 ds 0 : Int))

theorem digit?_eq_some_iff {c : Char} {d : Nat} :
    digit? 10 c = some d ↔ c.isDigit = true ∧ d = c.toNat - '0'.toNat := by
  rw [isDigit_iff]
  show _ ↔ (48 ≤ c.toNat ∧ c.toNat ≤ 57) ∧ d = c.toNat - 48
  dsimp only [digit?]
  by_cases hdigit : 48 ≤ c.toNat ∧ c.toNat ≤ 57
  · rw [if_pos hdigit, if_pos (by omega), Option.some.injEq, and_iff_right hdigit]
    exact eq_comm
  · -- a letter is worth ten or more
    rw [if_neg hdigit, if_neg (by split <;> [omega; split <;> omega])]
    exact iff_of_false nofun fun h => hdigit h.1

theorem extend?_eq_some_iff {acc n : Nat} {cs : List Char} :
    extend? 10 acc cs = some n ↔ (∀ c ∈ cs, c.isDigit = true) ∧ n = Nat.ofDigitChars 10 cs acc := by
  induction cs generalizing acc with
  | nil =>
    rw [extend?, Option.some.injEq, and_iff_right (List.forall_mem_nil _)]
    exact eq_comm
  | cons c cs ih =>
    rw [Nat.ofDigitChars_cons, List.forall_mem_cons, and_assoc, extend?]
    cases hc : digit? 10 c with
    | none =>
      refine iff_of_false (fun h => ?_) fun h => ?_
      · cases h
      · have hdigit := digit?_eq_some_iff.2 ⟨h.1, rfl⟩
        rw [hc] at hdigit
        cases hdigit
    | some d =>
      obtain ⟨hdigit, rfl⟩ := digit?_eq_some_iff.1 hc
      dsimp only
      rw [ih, Nat.mul_comm acc, and_iff_right hdigit]

theorem value?_eq_some_iff {n : Nat} {cs : List Char} :
    value? 10 cs = some n ↔ Digits cs ∧ n = Nat.ofDigitChars 10 cs 0 := by
  rw [value?, Digits, and_assoc, ← extend?_eq_some_iff]
  cases cs <;> simp

theorem int?_eq_some_iff {i : Int} {cs : List Char} : int? cs = some i ↔ Spells cs i := by
  constructor
  · intro h
    unfold int? at h
    split at h
    -- digits are behind every sign, and behind none
    all_goals
      obtain ⟨_, hvalue, rfl⟩ := Option.map_eq_some_iff.1 h
      obtain ⟨n, hn, hcast⟩ := Option.bind_eq_some_iff.1 hvalue
      cases hcast
      obtain ⟨hdigits, rfl⟩ := value?_eq_some_iff.1 hn
    · exact .minus hdigits
    · exact .plus hdigits
    · exact .unsigned hdigits
  · intro h
    cases h with
    | unsigned hdigits =>
      unfold int?
      split
      · exact absurd (hdigits.2 _ List.mem_cons_self) (by decide)
      · exact absurd (hdigits.2 _ List.mem_cons_self) (by decide)
      · rw [value?_eq_some_iff.2 ⟨hdigits, rfl⟩]
        rfl
    | plus hdigits =>
      rw [int?, value?_eq_some_iff.2 ⟨hdigits, rfl⟩]
      rfl
    | minus hdigits =>
      rw [int?, value?_eq_some_iff.2 ⟨hdigits, rfl⟩]
      rfl

theorem toInt64?_eq_some_iff {i : Int} {v : Int64} : toInt64? i = some v ↔ i = v.toInt := by
  constructor
  · intro h
    unfold toInt64? at h
    split at h
    · next hrange =>
      cases h
      exact (Int64.toInt_ofInt_of_le hrange.1 (Int.lt_of_le_of_lt hrange.2 (by decide))).symm
    · cases h
  · rintro rfl
    exact toInt64?_toInt v

/-- **A 64-bit integer is read from its numerals only**, so from none whose value is out of
range. -/
theorem int64?_eq_some_iff {cs : List Char} {v : Int64} : int64? cs = some v ↔ Spells cs v.toInt := by
  simp only [int64?, Option.bind_eq_some_iff, toInt64?_eq_some_iff, int?_eq_some_iff]
  constructor
  · rintro ⟨i, h, rfl⟩
    exact h
  · intro h
    exact ⟨_, h, rfl⟩

theorem Spells.ne_nil {cs : List Char} {i : Int} (h : Spells cs i) : cs ≠ [] := by
  cases h with
  | unsigned hdigits => exact hdigits.1
  | plus | minus => exact List.cons_ne_nil _ _

theorem Spells.isBlank_eq_false {cs : List Char} {i : Int} (h : Spells cs i) :
    ∀ c ∈ cs, isBlank c = false := by
  have hds {ds : List Char} (hdigits : Digits ds) : ∀ c ∈ ds, isBlank c = false :=
    fun c hc => isBlank_eq_false_of_isDigit (hdigits.2 c hc)
  cases h with
  | unsigned hdigits => exact hds hdigits
  | plus hdigits => exact List.forall_mem_cons.2 ⟨rfl, hds hdigits⟩
  | minus hdigits => exact List.forall_mem_cons.2 ⟨rfl, hds hdigits⟩

end Numeral

end Text

namespace Record

/-! ## Fields -/

/-- The letter behind a backslash stands for the character. -/
inductive Escape : Char → Char → Prop
  | backslash : Escape '\\' '\\'
  | tab : Escape 't' '\t'
  | newline : Escape 'n' '\n'
  | carriageReturn : Escape 'r' '\r'

/-- The text is that of a string with the characters: each but the backslash stands for itself, and
every backslash starts an escape. -/
inductive SpellsString : List Char → List Char → Prop
  | nil : SpellsString [] []
  | raw {c : Char} {text cs : List Char} (hc : c ≠ '\\') (h : SpellsString text cs) :
      SpellsString (c :: text) (c :: cs)
  | escaped {letter c : Char} {text cs : List Char} (hletter : Escape letter c)
      (h : SpellsString text cs) : SpellsString ('\\' :: letter :: text) (c :: cs)

/-- The field holds the atom. -/
inductive Holds : Atom → List Char → Prop
  | int {value : Int64} {before text behind : List Char}
      (hbefore : ∀ c ∈ before, isBlank c = true) (htext : Numeral.Spells text value.toInt)
      (hbehind : ∀ c ∈ behind, isBlank c = true) : Holds (.int value) (before ++ text ++ behind)
  | string {value : String} {text : List Char} (h : SpellsString text value.toList) :
      Holds (.string value) text

theorem unescapeChar?_eq_some_iff {letter c : Char} :
    unescapeChar? letter = some c ↔ Escape letter c := by
  constructor
  · intro h
    unfold unescapeChar? at h
    repeat' split at h
    all_goals cases h
    all_goals subst_vars
    · exact .backslash
    · exact .tab
    · exact .newline
    · exact .carriageReturn
  · rintro (_ | _) <;> rfl

theorem unescape?_eq_some_iff {text cs : List Char} :
    unescape? text = some cs ↔ SpellsString text cs := by
  constructor
  · intro h
    fun_induction unescape? text generalizing cs with
    | case1 => cases h; exact .nil
    | case2 letter text ih =>
      obtain ⟨c, hc, h⟩ := Option.bind_eq_some_iff.1 h
      obtain ⟨more, hmore, h⟩ := Option.bind_eq_some_iff.1 h
      cases h
      exact .escaped (unescapeChar?_eq_some_iff.1 hc) (ih hmore)
    | case3 => cases h
    | case4 c text _ hc ih =>
      obtain ⟨more, hmore, h⟩ := Option.bind_eq_some_iff.1 h
      cases h
      exact .raw hc (ih hmore)
  · intro h
    induction h with
    | nil => rfl
    | raw hc h ih =>
      rw [unescape?, if_neg hc, ih]
      · rfl
      · exact fun _ _ hbackslash _ => hc hbackslash
    | escaped hletter h ih =>
      rw [unescape?, unescapeChar?_eq_some_iff.2 hletter, ih]
      rfl

theorem readField?_eq_some_iff {type : ColumnType} {field : List Char} {a : Atom} :
    readField? type field = some a ↔ a.type = type ∧ Holds a field := by
  cases type with
  | int =>
    constructor
    · intro h
      obtain ⟨value, hvalue, rfl⟩ := Option.map_eq_some_iff.1 h
      obtain ⟨before, behind, hfield, hbefore, hbehind⟩ := exists_trim field
      rw [hfield]
      exact ⟨rfl, .int hbefore (Numeral.int64?_eq_some_iff.1 hvalue) hbehind⟩
    · rintro ⟨htype, ⟨hbefore, htext, hbehind⟩ | _⟩
      · rw [readField?, trim_between hbefore htext.isBlank_eq_false htext.ne_nil hbehind,
          Numeral.int64?_eq_some_iff.2 htext]
        rfl
      · cases htype
  | string =>
    constructor
    · intro h
      obtain ⟨cs, hcs, rfl⟩ := Option.map_eq_some_iff.1 h
      refine ⟨rfl, .string ?_⟩
      rw [String.toList_ofList]
      exact unescape?_eq_some_iff.1 hcs
    · rintro ⟨htype, _ | h⟩
      · cases htype
      · rw [readField?, unescape?_eq_some_iff.2 h, Option.map_some, String.ofList_toList]

theorem readField_eq_ok_iff {field : List Char} {c : Column} {a : Atom} :
    readField field c = .ok a ↔ a.type = c.type ∧ Holds a field := by
  rw [← readField?_eq_some_iff]
  unfold readField
  split
  · next h => rw [h, Except.ok.injEq, Option.some.injEq]
  · next h => rw [h]; exact iff_of_false nofun nofun

/-! ## Lines -/

/-- The fields of the columns, in order and one of each, hold the atoms. -/
inductive Fields : List Column → List (List Char) → List Atom → Prop
  | nil : Fields [] [] []
  | cons {c : Column} {f : List Char} {a : Atom} {cs : List Column} {fs : List (List Char)}
      {as : List Atom} (htype : a.type = c.type) (hfield : Holds a f) (h : Fields cs fs as) :
      Fields (c :: cs) (f :: fs) (a :: as)

/-- The line is a record of the schema that holds the tuple. -/
def IsRecord (s : Schema) (line : String) (t : Tuple) : Prop :=
  Fields s.columns (line.toList.splitOn '\t') t.atoms

variable {s : Schema} {line : String} {t : Tuple}

theorem Fields.length_eq {cs : List Column} {fs : List (List Char)} {as : List Atom}
    (h : Fields cs fs as) : fs.length = cs.length := by
  induction h with
  | nil => rfl
  | cons _ _ _ ih => rw [List.length_cons, List.length_cons, ih]

theorem Fields.types_eq {cs : List Column} {fs : List (List Char)} {as : List Atom}
    (h : Fields cs fs as) : as.map Atom.type = cs.map Column.type := by
  induction h with
  | nil => rfl
  | cons htype _ _ ih => rw [List.map_cons, List.map_cons, htype, ih]

theorem readFields_eq_ok_iff {fs : List (List Char)} {cs : List Column} {as : List Atom}
    (hlength : fs.length = cs.length) : readFields fs cs = .ok as ↔ Fields cs fs as := by
  induction cs generalizing fs as with
  | nil =>
    obtain rfl := List.length_eq_zero_iff.1 hlength
    constructor
    · rintro ⟨⟩
      exact .nil
    · rintro ⟨⟩
      rfl
  | cons c cs ih =>
    obtain ⟨f, fs, rfl⟩ := List.exists_cons_of_length_eq_add_one hlength
    have hrest : fs.length = cs.length := Nat.succ.inj hlength
    simp only [readFields, bind_eq_ok_iff, readField_eq_ok_iff, ih hrest]
    constructor
    · rintro ⟨a, ⟨htype, hfield⟩, as, h, heq⟩
      cases heq
      exact .cons htype hfield h
    · rintro (_ | ⟨htype, hfield, h⟩)
      exact ⟨_, ⟨htype, hfield⟩, _, h, rfl⟩

/-- **A line is read as a tuple exactly if it is a record that holds the tuple.** -/
theorem read_eq_ok_iff : read s line = .ok t ↔ IsRecord s line t := by
  rw [IsRecord, ← fields_eq_splitOn]
  unfold read
  dsimp only
  split
  · next hlength =>
    rw [← readFields_eq_ok_iff hlength]
    cases readFields (fields line.toList) s.columns with
    | error e => exact iff_of_false nofun nofun
    | ok as => exact ⟨fun h => by cases h; rfl, fun h => by cases h; rfl⟩
  · next hlength => exact iff_of_false nofun fun h => hlength h.length_eq

/-- **Records are read, and nothing else is.**  A line is read as a tuple exactly if it is a record
that holds the tuple.  The tuple then fits the schema, and it is read from the line that it is
written as.  Where the line is no record, the failure is one of types. -/
theorem reads_records_only (s : Schema) (line : String) :
    (∀ t, read s line = .ok t ↔ IsRecord s line t) ∧
      (∀ t, IsRecord s line t → s.check t = .ok () ∧ read s (write t) = .ok t) ∧
      ((∀ t, ¬IsRecord s line t) → ∃ reason, read s line = .error (.tupleType reason)) := by
  refine ⟨fun t => read_eq_ok_iff, fun t h => ?_, fun h => ?_⟩
  · have hadmits : s.Admits t := h.types_eq
    have hcolumns : s.columns ≠ [] := by
      intro hnone
      have hfields : (line.toList.splitOn '\t').length = 0 := by rw [h.length_eq, hnone]; rfl
      exact List.splitOn_ne_nil '\t' line.toList (List.length_eq_zero_iff.1 hfields)
    exact ⟨Schema.check_eq_ok_iff.2 hadmits, read_write hadmits (atoms_ne_nil hadmits hcolumns)⟩
  · cases hread : read s line with
    | ok t => exact absurd (read_eq_ok_iff.1 hread) (h t)
    | error e =>
      obtain ⟨reason, rfl⟩ := tupleType_of_read hread
      exact ⟨reason, rfl⟩

/-- Blanks, a sign and leading zeros stand around the digits of an integer, and an escape hides a
tab; one more than the greatest integer is none. -/
theorem reads_records_only_padded :
    let line := " +007\u00a0\ta\\tb\t"
    let t : Tuple := ⟨[.int 7, .string "a\tb", .string ""]⟩
    let tooGreat := "9223372036854775808\t\t"
    IsRecord mixedColumns line t ∧ read mixedColumns line = .ok t ∧
      mixedColumns.check t = .ok () ∧ write t = "7\ta\\tb\t" ∧
      read mixedColumns (write t) = .ok t ∧ (∀ u, ¬IsRecord mixedColumns tooGreat u) ∧
      ∃ reason, read mixedColumns tooGreat = .error (.tupleType reason) := by
  intro line t tooGreat
  have hdigits : Numeral.Digits ['0', '0', '7'] := ⟨nofun, List.all_eq_true.1 rfl⟩
  have hblank : ∀ c ∈ [' '], isBlank c = true := List.all_eq_true.1 rfl
  have hblank' : ∀ c ∈ ['\u00a0'], isBlank c = true := List.all_eq_true.1 rfl
  have hfields : line.toList.splitOn '\t'
      = [[' ', '+', '0', '0', '7', '\u00a0'], ['a', '\\', 't', 'b'], []] := by decide +kernel
  have hseven : Numeral.Spells ['+', '0', '0', '7'] (7 : Int64).toInt := .plus hdigits
  have hint : Holds (.int 7) ([' '] ++ ['+', '0', '0', '7'] ++ ['\u00a0']) :=
    .int hblank hseven hblank'
  have hstring : SpellsString ['a', '\\', 't', 'b'] ['a', '\t', 'b'] :=
    .raw (by decide) (.escaped .tab (.raw (by decide) .nil))
  have hrecord : IsRecord mixedColumns line t := by
    rw [IsRecord, hfields]
    exact .cons rfl hint (.cons rfl (.string hstring) (.cons rfl (.string .nil) .nil))
  obtain ⟨hread, hgood, -⟩ := reads_records_only mixedColumns line
  obtain ⟨hread', -, hbad⟩ := reads_records_only mixedColumns tooGreat
  have hnone : ∀ u, ¬IsRecord mixedColumns tooGreat u := by
    intro u hu
    have hfails : (read mixedColumns tooGreat).toOption = none := by decide +kernel
    rw [(hread' u).2 hu] at hfails
    cases hfails
  obtain ⟨hcheck, hagain⟩ := hgood t hrecord
  exact ⟨hrecord, (hread t).2 hrecord, hcheck, by decide +kernel, hagain, hnone, hbad hnone⟩

end Record

end BagQuery
