import BagQuery.Proofs.DecimalText
import BagQuery.Proofs.Attempt
import BagQuery.Proofs.TextLines
import BagQuery.Relation.Record

/-!
# Records as they are written

A field that was written holds no tab and no line break: in a string they are escaped, and an
integer has none (`break_notMem_writeField`).  So the tabs of a line are those between its fields,
and cutting the line at its tabs gives the fields back (`fields_intercalate`).  Each field reads
back as its atom (`readField?_writeField`), and with that a line as its tuple (`read_write`).

Different tuples of a schema are therefore written differently (`round_trip`).
-/

namespace BagQuery.Record

open Text

/-! ## Fields between tabs -/

theorem fields_eq_splitOn (cs : List Char) : fields cs = cs.splitOn '\t' := by
  induction cs with
  | nil => rfl
  | cons c cs ih =>
    rw [fields, ih]
    show _ = (c :: cs).splitOnP (· == '\t')
    rw [List.splitOnP_cons_eq_if_modifyHead]
    by_cases hc : c = '\t'
    · rw [if_pos hc, if_pos (beq_iff_eq.2 hc)]
      rfl
    · rw [if_neg hc, if_neg (mt beq_iff_eq.1 hc)]
      show _ = (cs.splitOn '\t').modifyHead (List.cons c)
      cases hs : cs.splitOn '\t' with
      | nil => exact absurd hs (List.splitOn_ne_nil '\t' cs)
      | cons f fs => rfl

theorem fields_intercalate {fs : List (List Char)} (h : ∀ f ∈ fs, '\t' ∉ f) (hfs : fs ≠ []) :
    fields (['\t'].intercalate fs) = fs := by
  rw [fields_eq_splitOn, List.splitOn_intercalate '\t' h hfs]

/-- Between fields without tabs there is one tab less than there are fields. -/
theorem count_tab_intercalate {fs : List (List Char)} (h : ∀ f ∈ fs, '\t' ∉ f) (hfs : fs ≠ []) :
    (['\t'].intercalate fs).count '\t' + 1 = fs.length := by
  induction fs with
  | nil => exact absurd rfl hfs
  | cons f fs ih =>
    obtain ⟨hf, hrest⟩ := List.forall_mem_cons.1 h
    have hcount : f.count '\t' = 0 := List.count_eq_zero.2 hf
    cases fs with
    | nil => simp [hcount]
    | cons g fs =>
      have htab : ['\t'].count '\t' = 1 := rfl
      rw [List.intercalate_cons_cons, List.count_append, List.count_append, hcount, htab,
        List.length_cons, ← ih hrest nofun]
      omega

/-! ## Written fields -/

/-- The characters that end a field or a line. -/
def IsBreak (c : Char) : Prop := c = '\t' ∨ c = '\n' ∨ c = '\r'

theorem break_notMem_escapeChar {b : Char} (hb : IsBreak b) (c : Char) : b ∉ escapeChar c := by
  unfold escapeChar
  rcases hb with rfl | rfl | rfl <;> repeat' split
  all_goals simp_all [eq_comm]

theorem break_notMem_writeField {b : Char} (hb : IsBreak b) (a : Atom) : b ∉ writeField a := by
  cases a with
  | int value =>
    intro h
    rw [writeField, Numeral.ofInt64, String.toList_ofList] at h
    rcases Numeral.mem_intChars h with hdigit | rfl
    · rcases hb with rfl | rfl | rfl <;> cases hdigit
    · rcases hb with h | h | h <;> cases h
  | string value =>
    intro h
    obtain ⟨c, -, hc⟩ := List.mem_flatMap.1 h
    exact break_notMem_escapeChar hb c hc

theorem readField?_writeField (a : Atom) : readField? a.type (writeField a) = some a := by
  cases a with
  | int value =>
    have htrim : trim (Numeral.ofInt64 value).toList = (Numeral.ofInt64 value).toList := by
      rw [Numeral.ofInt64, String.toList_ofList, trim_intChars]
    show (Numeral.int64? (trim (Numeral.ofInt64 value).toList)).map Atom.int = _
    rw [htrim, Numeral.int64?_ofInt64]
    rfl
  | string value =>
    show (unescape? (escape value.toList)).map _ = _
    rw [unescape?_escape, Option.map_some, String.ofList_toList]

theorem readField_writeField {a : Atom} {c : Column} (h : a.type = c.type) :
    readField (writeField a) c = .ok a := by
  rw [readField, ← h, readField?_writeField]

/-! ## Written tuples -/

theorem readFields_writeField {atoms : List Atom} {columns : List Column}
    (h : atoms.map Atom.type = columns.map Column.type) :
    readFields (atoms.map writeField) columns = .ok atoms := by
  induction atoms generalizing columns with
  | nil => cases columns <;> rfl
  | cons a atoms ih =>
    cases columns with
    | nil => cases h
    | cons c columns =>
      obtain ⟨ha, hatoms⟩ := List.cons.inj h
      rw [List.map_cons, readFields, readField_writeField ha, ih hatoms]
      rfl

theorem tab_notMem_fields {t : Tuple} : ∀ f ∈ t.atoms.map writeField, '\t' ∉ f := by
  intro f hf
  obtain ⟨a, -, rfl⟩ := List.mem_map.1 hf
  exact break_notMem_writeField (Or.inl rfl) a

theorem toList_write (t : Tuple) :
    (write t).toList = ['\t'].intercalate (t.atoms.map writeField) := String.toList_ofList

theorem break_notMem_write {b : Char} (hb : b = '\n' ∨ b = '\r') (t : Tuple) :
    b ∉ (write t).toList := by
  intro h
  rw [toList_write] at h
  rcases mem_intercalate h with htab | ⟨f, hf, hmem⟩
  · rw [List.mem_singleton.1 htab] at hb
    rcases hb with h | h <;> cases h
  · obtain ⟨a, -, rfl⟩ := List.mem_map.1 hf
    exact break_notMem_writeField (Or.inr hb) a hmem

theorem count_tab_write {t : Tuple} (ht : t.atoms ≠ []) :
    (write t).toList.count '\t' + 1 = t.arity := by
  rw [toList_write, count_tab_intercalate tab_notMem_fields (mt List.map_eq_nil_iff.1 ht),
    List.length_map]
  rfl

/-- **A tuple of a schema with columns reads back from the line that it is written as.** -/
theorem read_write {s : Schema} {t : Tuple} (ht : s.Admits t) (hne : t.atoms ≠ []) :
    read s (write t) = .ok t := by
  have hfields : fields (write t).toList = t.atoms.map writeField := by
    rw [toList_write, fields_intercalate tab_notMem_fields (mt List.map_eq_nil_iff.1 hne)]
  have hlength : (t.atoms.map writeField).length = s.arity := by
    rw [List.length_map]
    exact ht.arity_eq
  rw [read, hfields, if_pos hlength, readFields_writeField ht]
  rfl

theorem atoms_ne_nil {s : Schema} {t : Tuple} (ht : s.Admits t) (hs : s.columns ≠ []) :
    t.atoms ≠ [] := by
  intro h
  have harity : s.arity = 0 := by rw [← ht.arity_eq, Tuple.arity, h, List.length_nil]
  exact hs (List.length_eq_zero_iff.1 harity)

/-- **Round trip.**  Under a schema with columns, a tuple that passes the check reads back from its
line, the line has no line break in it and a tab between any two fields only, and different tuples
have different lines. -/
theorem round_trip {s : Schema} (hs : s.columns ≠ []) :
    (∀ t, s.check t = .ok () → read s (write t) = .ok t ∧ '\n' ∉ (write t).toList ∧
      '\r' ∉ (write t).toList ∧ (write t).toList.count '\t' + 1 = t.arity) ∧
      ∀ t u, s.check t = .ok () → s.check u = .ok () → write t = write u → t = u := by
  have hread : ∀ t, s.check t = .ok () → read s (write t) = .ok t := fun t ht =>
    read_write (Schema.check_eq_ok_iff.1 ht) (atoms_ne_nil (Schema.check_eq_ok_iff.1 ht) hs)
  constructor
  · intro t ht
    have hne := atoms_ne_nil (Schema.check_eq_ok_iff.1 ht) hs
    exact ⟨hread t ht, break_notMem_write (Or.inl rfl) t, break_notMem_write (Or.inr rfl) t,
      count_tab_write hne⟩
  · intro t u ht hu h
    have hu' := hread u hu
    rw [← h, hread t ht] at hu'
    exact Except.ok.inj hu'

/-- A column of integers and two of strings. -/
def mixedColumns : Schema := ⟨[⟨"n", .int⟩, ⟨"s", .string⟩, ⟨"e", .string⟩], by decide⟩

/-- The least integer, a string with what is escaped and what only looks so, and no text at all. -/
def awkward : Tuple := ⟨[.int Int64.minValue, .string "\\t\t\r\n\\", .string ""]⟩

theorem round_trip_awkward :
    mixedColumns.columns ≠ [] ∧ mixedColumns.check awkward = .ok () ∧
      write awkward = "-9223372036854775808\t\\\\t\\t\\r\\n\\\\\t" ∧
      read mixedColumns (write awkward) = .ok awkward ∧ '\n' ∉ (write awkward).toList ∧
      '\r' ∉ (write awkward).toList ∧ (write awkward).toList.count '\t' + 1 = awkward.arity ∧
      ∀ u, mixedColumns.check u = .ok () → write awkward = write u → awkward = u := by
  have hs : mixedColumns.columns ≠ [] := nofun
  have ht : mixedColumns.check awkward = .ok () := Schema.check_eq_ok_iff.2 rfl
  have hwrite : write awkward = "-9223372036854775808\t\\\\t\\t\\r\\n\\\\\t" := by
    decide +kernel
  obtain ⟨hline, hinj⟩ := round_trip hs
  obtain ⟨hread, hnewline, hreturn, htabs⟩ := hline awkward ht
  exact ⟨hs, ht, hwrite, hread, hnewline, hreturn, htabs, fun u hu => hinj awkward u ht hu⟩

end BagQuery.Record
