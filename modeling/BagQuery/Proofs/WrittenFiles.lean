import BagQuery.Proofs.RecordText
import BagQuery.Proofs.Reference
import BagQuery.Proofs.TextLines

/-!
# Loading a file that was written

A `RecordFile` is a file made of the lines of tuples, among other lines that hold no record: blank
lines and comments.  Each line ends in either way, and the last one may have no end.

What a line is read as depends on nothing but the line (`ReadAs`): a record is read as its tuple,
unless its text happens to look blank or like a comment, and any other line is left out.  So a load
gives the tuples whose lines look like records, and no failure (`RecordFile.load_gives_kept`).
A line that starts with an integer always does (`kept_of_int`).
-/

namespace BagQuery

open Text
open BagQuery.Stream (Item given isSkipped lineItems atLine)

/-! ## Lines without a record -/

/-- The line is blank, or a comment behind blanks. -/
inductive HoldsNoRecord : List Char → Prop
  | blank {cs : List Char} : (∀ c ∈ cs, isBlank c = true) → HoldsNoRecord cs
  | comment {blanks : List Char} (rest : List Char) : (∀ c ∈ blanks, isBlank c = true) →
      HoldsNoRecord (blanks ++ '#' :: rest)

theorem HoldsNoRecord.dropLast {cs : List Char} (h : HoldsNoRecord cs)
    (hlast : cs.getLast? = some '\r') : HoldsNoRecord cs.dropLast := by
  cases h with
  | blank hblank => exact .blank fun c hc => hblank c (List.dropLast_subset cs hc)
  | @comment blanks rest hblanks =>
    -- the last character is behind the sharp, which is no carriage return
    cases rest with
    | nil =>
      rw [List.getLast?_concat] at hlast
      cases hlast
    | cons c rest =>
      rw [List.dropLast_append_of_ne_nil (List.cons_ne_nil _ _), List.dropLast_cons_cons]
      exact .comment _ hblanks

theorem HoldsNoRecord.lineRead {cs : List Char} (h : HoldsNoRecord cs) (e : LineEnd) :
    HoldsNoRecord (lineRead (cs, e)) := by
  cases e with
  | newline =>
    show HoldsNoRecord (withoutReturn (cs ++ []))
    rw [List.append_nil, withoutReturn]
    split
    · exact h.dropLast ‹_›
    · exact h
  | returnNewline =>
    show HoldsNoRecord (withoutReturn (cs ++ ['\r']))
    rw [withoutReturn_append_return]
    exact h

theorem isSkipped_iff {line : String} :
    isSkipped line = true ↔ ∀ c, (trim line.toList).head? = some c → c = '#' := by
  unfold isSkipped
  split <;> simp_all

theorem HoldsNoRecord.isSkipped {cs : List Char} (h : HoldsNoRecord cs) :
    isSkipped (String.ofList cs) = true := by
  rw [isSkipped_iff, String.toList_ofList]
  intro c hc
  rw [head?_trim, trimStart] at hc
  cases h with
  | blank hblank =>
    have hnil : (cs ++ []).dropWhile isBlank = [] := List.dropWhile_append_of_pos hblank
    rw [List.append_nil] at hnil
    rw [hnil] at hc
    cases hc
  | comment rest hblanks =>
    rw [List.dropWhile_append_of_pos hblanks] at hc
    exact (Option.some.inj hc).symm

/-! ## Kept tuples -/

/-- The line of the tuple is not empty after trimming and does not start with a sharp then. -/
def Tuple.Kept (t : Tuple) : Prop :=
  trim (Record.write t).toList ≠ [] ∧ (trim (Record.write t).toList).head? ≠ some '#'

instance : DecidablePred Tuple.Kept := fun _ => inferInstanceAs (Decidable (_ ∧ _))

theorem isSkipped_write_iff {t : Tuple} : isSkipped (Record.write t) = true ↔ ¬ t.Kept := by
  rw [isSkipped_iff, Tuple.Kept]
  cases trim (Record.write t).toList with
  | nil => simp
  | cons c cs => simp

/-! ## Files of records -/

/-- A line of a file of records. -/
inductive FileLine where
  /-- The line that a tuple is written as. -/
  | record (t : Tuple)
  /-- Any other line. -/
  | other (text : List Char)

namespace FileLine

/-- The characters of the line, without its end. -/
def chars : FileLine → List Char
  | record t => (Record.write t).toList
  | other text => text

/-- The tuple of a record. -/
def record? : FileLine → Option Tuple
  | record t => some t
  | other _ => none

/-- A record is one of the schema, and any other line is a single line without a record. -/
def Fits (schema : Schema) : FileLine → Prop
  | record t => schema.check t = .ok ()
  | other text => '\n' ∉ text ∧ HoldsNoRecord text

theorem newline_notMem_chars {schema : Schema} {l : FileLine} (h : l.Fits schema) :
    '\n' ∉ l.chars := by
  cases l with
  | record t => exact Record.break_notMem_write (Or.inl rfl) t
  | other text => exact h.1

/-- The text is that of the line as far as records go. -/
def ReadAs (schema : Schema) : FileLine → List Char → Prop
  | record t, cs => schema.check t = .ok () ∧ cs = (Record.write t).toList
  | other _, cs => HoldsNoRecord cs

theorem readAs_chars {schema : Schema} {l : FileLine} (h : l.Fits schema) :
    l.ReadAs schema l.chars := by
  cases l with
  | record t => exact ⟨h, rfl⟩
  | other text => exact h.2

theorem readAs_lineRead {schema : Schema} {l : FileLine} (h : l.Fits schema) (e : LineEnd) :
    l.ReadAs schema (lineRead (l.chars, e)) := by
  cases l with
  | record t => exact ⟨h, lineRead_of_notMem (Record.break_notMem_write (Or.inr rfl) t) e⟩
  | other text => exact h.2.lineRead e

/-- What is loaded of a line. -/
def kept (l : FileLine) : List Tuple := l.record?.toList.filter (·.Kept)

/-- What a line is read as depends on the line alone. -/
theorem ReadAs.lineItems {schema : Schema} {l : FileLine} {cs : List Char}
    (h : l.ReadAs schema cs) (path : String) (n : Nat) (rest : List (Option String)) :
    lineItems path schema n (some (String.ofList cs) :: rest)
      = given l.kept ++ lineItems path schema (n + 1) rest := by
  rw [Stream.lineItems]
  congr 1
  cases l with
  | other text => rw [if_pos (HoldsNoRecord.isSkipped h)]; rfl
  | record t =>
    obtain ⟨hcheck, rfl⟩ := h
    rw [String.ofList_toList]
    by_cases hkept : t.Kept
    · have hne : t.atoms ≠ [] := by
        intro hnil
        refine hkept.1 ?_
        rw [Record.toList_write, hnil]
        rfl
      rw [if_neg (mt isSkipped_write_iff.1 (not_not.2 hkept)),
        Record.read_write (Schema.check_eq_ok_iff.1 hcheck) hne]
      simp [kept, record?, hkept, given, Except.mapError]
    · rw [if_pos (isSkipped_write_iff.2 hkept)]
      simp [kept, record?, hkept, given]

/-- Nothing is kept of a line without characters. -/
theorem kept_of_chars_nil {l : FileLine} (h : l.chars = []) : l.kept = [] := by
  cases l with
  | record t =>
    have hline : (Record.write t).toList = [] := h
    have hkept : ¬ t.Kept := fun ht => ht.1 (by rw [hline]; rfl)
    simp [kept, record?, hkept]
  | other text => rfl

end FileLine

/-! ## Integers in front -/

theorem exists_append_of_intercalate (f : List Char) (fs : List (List Char)) :
    ∃ rest, ['\t'].intercalate (f :: fs) = f ++ rest := by
  cases fs with
  | nil => exact ⟨[], by simp⟩
  | cons g fs =>
    exact ⟨['\t'] ++ ['\t'].intercalate (g :: fs), by
      rw [List.intercalate_cons_cons, List.append_assoc]⟩

/-- **A tuple with an integer in front is kept.** -/
theorem Tuple.kept_of_int {t : Tuple} {value : Int64} {atoms : List Atom}
    (h : t.atoms = .int value :: atoms) : t.Kept := by
  obtain ⟨rest, hrest⟩ := exists_append_of_intercalate (Record.writeField (.int value))
    (atoms.map Record.writeField)
  obtain ⟨c, cs, hc⟩ := List.exists_cons_of_ne_nil (Numeral.intChars_ne_nil value.toInt)
  have hline : (Record.write t).toList = c :: (cs ++ rest) := by
    rw [Record.toList_write, h, List.map_cons, hrest, Record.writeField, Numeral.ofInt64,
      String.toList_ofList, hc, List.cons_append]
  have hmem : c ∈ Numeral.intChars value.toInt := hc ▸ List.mem_cons_self
  have hhead : (trim (Record.write t).toList).head? = some c := by
    rw [head?_trim, trimStart, hline, List.dropWhile_cons_of_neg]
    · rfl
    · rw [isBlank_of_mem_intChars hmem]
      exact Bool.false_ne_true
  refine ⟨?_, ?_⟩
  · intro hnil
    rw [hnil] at hhead
    cases hhead
  · rw [hhead]
    intro hsharp
    cases hsharp
    rcases Numeral.mem_intChars hmem with hdigit | hminus
    · cases hdigit
    · cases hminus

/-! ## Whole files -/

/-- Lines with their ends, and perhaps a last line without one. -/
structure RecordFile where
  lines : List (FileLine × LineEnd)
  last : Option FileLine

namespace RecordFile

/-- All lines, in order. -/
def all (f : RecordFile) : List FileLine := f.lines.map Prod.fst ++ f.last.toList

/-- The tuples of the records, in order. -/
def records (f : RecordFile) : List Tuple := f.all.filterMap FileLine.record?

/-- The characters of the last line. -/
def lastChars (f : RecordFile) : List Char := f.last.elim [] FileLine.chars

/-- The text of the file. -/
def text (f : RecordFile) : String :=
  String.ofList (joinLines (f.lines.map fun l => (l.1.chars, l.2)) f.lastChars)

theorem filter_kept_records (f : RecordFile) :
    f.records.filter (·.Kept) = f.all.flatMap FileLine.kept := by
  rw [records]
  induction f.all with
  | nil => rfl
  | cons l ls ih =>
    cases l with
    | record t =>
      rw [List.filterMap_cons_some (by rfl), List.filter_cons, ih]
      by_cases ht : t.Kept <;> simp [FileLine.kept, FileLine.record?, ht]
    | other text =>
      rw [List.filterMap_cons_none (by rfl), ih]
      rfl

theorem lineItems_readAs {schema : Schema} {ls : List FileLine} {texts : List (List Char)}
    (h : List.Forall₂ (FileLine.ReadAs schema) ls texts) (path : String) (n : Nat) :
    lineItems path schema n (texts.map fun cs => some (.ofList cs))
      = given (ls.flatMap FileLine.kept) := by
  induction h generalizing n with
  | nil => rfl
  | cons hl _ ih =>
    rw [List.map_cons, hl.lineItems, ih, List.flatMap_cons, Stream.given_append]

theorem readAs_lines {schema : Schema} {f : RecordFile} (h : ∀ l ∈ f.all, l.Fits schema) :
    List.Forall₂ (FileLine.ReadAs schema) (f.lines.map Prod.fst)
      ((f.lines.map fun l => (l.1.chars, l.2)).map lineRead) := by
  rw [List.map_map, List.forall₂_map_left_iff, List.forall₂_map_right_iff, List.forall₂_same]
  intro l hl
  exact FileLine.readAs_lineRead (h l.1 (List.mem_append_left _ (List.mem_map_of_mem hl))) l.2

/-- **What is read of a file is what its records are worth.** -/
theorem lineItems_text {schema : Schema} {f : RecordFile} (h : ∀ l ∈ f.all, l.Fits schema)
    (path : String) :
    lineItems path schema 0 (Text.lines f.text.toUTF8) = given (f.records.filter (·.Kept)) := by
  have hlast : ∀ l ∈ f.last, l.Fits schema := fun l hl =>
    h l (List.mem_append_right _ (Option.mem_toList.2 hl))
  have hlines : ∀ l ∈ f.lines.map fun l => (l.1.chars, l.2), '\n' ∉ l.1 := by
    intro l hl
    obtain ⟨l', hl', rfl⟩ := List.mem_map.1 hl
    exact FileLine.newline_notMem_chars
      (h l'.1 (List.mem_append_left _ (List.mem_map_of_mem hl')))
  have hlastChars : '\n' ∉ f.lastChars := by
    unfold lastChars
    cases hl : f.last with
    | none => exact List.not_mem_nil
    | some l => exact FileLine.newline_notMem_chars (hlast l hl)
  rw [text, lines_joinLines hlines hlastChars, filter_kept_records, all, List.flatMap_append]
  have hread := readAs_lines h
  by_cases hempty : f.lastChars = []
  · -- nothing is read behind the last line end, and nothing is lost with it
    have hkept : f.last.toList.flatMap FileLine.kept = [] := by
      unfold lastChars at hempty
      cases hl : f.last with
      | none => rfl
      | some l =>
        rw [hl] at hempty
        simpa using FileLine.kept_of_chars_nil hempty
    rw [if_pos hempty, List.append_nil, hkept, List.append_nil, lineItems_readAs hread]
  · obtain ⟨l, hl⟩ : ∃ l, f.last = some l := by
      cases hl : f.last with
      | none => exact absurd (by rw [lastChars, hl]; rfl) hempty
      | some l => exact ⟨l, rfl⟩
    have hchars : f.lastChars = l.chars := by rw [lastChars, hl]; rfl
    have hone : List.Forall₂ (FileLine.ReadAs schema) f.last.toList [f.lastChars] := by
      rw [hchars, hl]
      exact .cons (FileLine.readAs_chars (hlast l hl)) .nil
    rw [if_neg hempty, lineItems_readAs (List.rel_append hread hone), List.flatMap_append]

theorem check_of_mem_records {schema : Schema} {f : RecordFile} (h : ∀ l ∈ f.all, l.Fits schema)
    {t : Tuple} (ht : t ∈ f.records) : schema.check t = .ok () := by
  obtain ⟨l, hl, hrecord⟩ := List.mem_filterMap.1 ht
  have hfits := h l hl
  cases l with
  | record u => cases hrecord; exact hfits
  | other text => cases hrecord

theorem exists_int_of_head {schema : Schema} {t : Tuple} (ht : schema.check t = .ok ())
    (hint : schema.types.head? = some .int) :
    ∃ value atoms, t.atoms = .int value :: atoms := by
  have hadmits : t.types = schema.types := Schema.check_eq_ok_iff.1 ht
  rw [← hadmits, Tuple.types] at hint
  cases hatoms : t.atoms with
  | nil => rw [hatoms] at hint; cases hint
  | cons a atoms =>
    cases a with
    | int value => exact ⟨value, atoms, rfl⟩
    | string value => rw [hatoms] at hint; cases hint

/-- **Loading a written file.**  A load of a file that was written from tuples of a schema, among
blank lines and comments, reads to its end without a failure and gives the tuples in order, but for
those whose lines are empty or start with a sharp after trimming.  None is lost if the first column
holds integers. -/
theorem load_gives_kept {env : Environment} {path : String} {schema : Schema} {f : RecordFile}
    (hfits : ∀ l ∈ f.all, l.Fits schema)
    (hfile : env.files (env.locate path) = .content f.text.toUTF8) (db : Database) :
    (∃ stream : Stream, (db.evaluate env (.query (.load path schema))).1 = .ok ⟨schema, stream⟩ ∧
      stream.drain = .ok (f.records.filter (·.Kept)) ∧
      ∀ n, stream.answer n = (f.records.filter (·.Kept))[n]?.map .ok) ∧
      (schema.types.head? = some .int → f.records.filter (·.Kept) = f.records) := by
  have hitems := lineItems_text hfits (env.locate path)
  constructor
  · have hregular :
        (Stream.load (env.locate path) schema 0 (Text.lines f.text.toUTF8)).Regular := trivial
    refine ⟨_, Query.evaluate_load hfile db schema, ?_, fun n => ?_⟩
    · rw [Stream.drain_eq_tuples]
      show Stream.tuples (lineItems _ _ _ _) = _
      rw [hitems, Stream.tuples_given]
    · rw [Stream.answer_eq_getElem? hregular]
      show (lineItems _ _ _ _)[n]? = _
      rw [hitems, given, List.getElem?_map]
  · intro hint
    rw [List.filter_eq_self]
    intro t ht
    obtain ⟨value, atoms, hatoms⟩ := exists_int_of_head (check_of_mem_records hfits ht) hint
    exact decide_eq_true (Tuple.kept_of_int hatoms)

/-! ### Rows that look blank or like comments -/

/-- Two columns of strings. -/
def textColumns : Schema := ⟨[⟨"s", .string⟩, ⟨"e", .string⟩], by decide⟩

/-- Four rows, of which one looks like a comment and one is blank, behind a comment and around a
blank line; the last row has no line end. -/
def fourRows : RecordFile where
  lines := [
    (.other [' ', '#', 's', '\r'], .newline),
    (.record ⟨[.string "a", .string "\t"]⟩, .returnNewline),
    (.record ⟨[.string "", .string "#"]⟩, .newline),
    (.other [], .returnNewline),
    (.record ⟨[.string " ", .string ""]⟩, .newline)]
  last := some (.record ⟨[.string "\\", .string ""]⟩)

theorem fits_fourRows : ∀ l ∈ fourRows.all, l.Fits textColumns := by
  have hcheck (t : Tuple) (h : textColumns.Admits t) : textColumns.check t = .ok () :=
    Schema.check_eq_ok_iff.2 h
  have hcomment : HoldsNoRecord ([' '] ++ '#' :: ['s', '\r']) :=
    .comment _ (List.forall_mem_singleton.2 rfl)
  simp only [all, fourRows, List.map_cons, List.map_nil, Option.toList_some, List.cons_append,
    List.nil_append, List.forall_mem_cons]
  exact ⟨⟨by decide, hcomment⟩, hcheck _ rfl, hcheck _ rfl, ⟨by decide, .blank nofun⟩,
    hcheck _ rfl, hcheck _ rfl, nofun⟩

theorem load_gives_kept_fourRows :
    let env : Environment := ⟨fun _ => .content fourRows.text.toUTF8, none⟩
    let kept : List Tuple := [⟨[.string "a", .string "\t"]⟩, ⟨[.string "\\", .string ""]⟩]
    fourRows.text = " #s\r\na\t\\t\r\n\t#\n\r\n \t\n\\\\\t" ∧
      (∀ l ∈ fourRows.all, l.Fits textColumns) ∧
      env.files (env.locate "f") = .content fourRows.text.toUTF8 ∧
      ∃ stream : Stream, (Database.fresh.evaluate env (.query (.load "f" textColumns))).1
          = .ok ⟨textColumns, stream⟩ ∧
        stream.drain = .ok kept ∧ ∀ n, stream.answer n = kept[n]?.map .ok := by
  intro env kept
  have hkept : fourRows.records.filter (·.Kept) = kept := by decide +kernel
  have hfile : env.files (env.locate "f") = .content fourRows.text.toUTF8 := rfl
  obtain ⟨h, -⟩ := load_gives_kept fits_fourRows hfile Database.fresh
  rw [hkept] at h
  exact ⟨by decide +kernel, fits_fourRows, hfile, h⟩

end RecordFile

end BagQuery
