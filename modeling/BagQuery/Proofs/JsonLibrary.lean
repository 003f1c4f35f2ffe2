import BagQuery.Json.Decode
import BagQuery.Output
import BagQuery.Proofs.JsonReading

/-!
# Tuples, columns and keys in JSON

Writing and reading JSON, and encoding and decoding the values of a type, is the work of a library
(`Json.Library`).  What is documented of it are the laws of `Json.Library.Documented`: the texts
that it writes and reads, which values are integers and strings, and how a value without a tag, a
list and a record are made up of their parts.  With them, the text of each tuple, column and key is
read as what was written, and an atom stays the integer or the string that it was
(`Json.Library.fromText?_toText`).

The writer, the reader and the decoders of `BagQuery.Json` are such a library
(`Json.Library.own_documented`).
-/

namespace BagQuery

namespace Json

/-- How the values of a type are encoded in JSON, and decoded. -/
structure Form (α : Type) where
  encode : α → Json
  decode? : Json → Option α

/-- A library for JSON: it writes a value as a text and reads a text that is one value, and has the
forms of the types that occur. -/
structure Library where
  write : Json → String
  read? : String → Option Json
  int : Form Int64
  string : Form String
  atom : Form Atom
  tuple : Form Tuple
  columnType : Form ColumnType
  column : Form Column
  key : Form Key

namespace Library

variable {α : Type}

/-- The text of a value in its form. -/
def toText (L : Library) (form : Form α) (a : α) : String := L.write (form.encode a)

/-- The value whose form the text has. -/
def fromText? (L : Library) (form : Form α) (text : String) : Option α :=
  (L.read? text).bind form.decode?

/-- What is documented of a library.  Its reader may bound the nesting of a text. -/
structure Documented (L : Library) : Prop where
  /-- What is written is a text of the value, without blanks. -/
  write : ∀ {depth : Nat} {v : Json}, v.Plain depth → Spells (L.write v).toList v
  /-- Each text of a value is read as the value. -/
  read? : ∀ {v : Json} {text : String}, v.Plain 127 → Spells text.toList v → L.read? text = some v
  int_encode : ∀ i, L.int.encode i = .int i.toInt
  /-- An integer has to be in range. -/
  int_decode? : ∀ n, L.int.decode? (.int n) = Text.Numeral.toInt64? n
  int_decode?_string : ∀ s, L.int.decode? (.string s) = none
  string_encode : ∀ s, L.string.encode s = .string s
  string_decode? : ∀ s, L.string.decode? (.string s) = some s
  /-- A value of several variants without tags is encoded as what it holds. -/
  atom_encode_int : ∀ i, L.atom.encode (.int i) = L.int.encode i
  atom_encode_string : ∀ s, L.atom.encode (.string s) = L.string.encode s
  /-- The variants are tried in order. -/
  atom_decode? : ∀ v, L.atom.decode? v
    = ((L.int.decode? v).map Atom.int).or ((L.string.decode? v).map .string)
  /-- A transparent wrapper has the form of what it wraps, here of a list. -/
  tuple_encode : ∀ t, L.tuple.encode t = .array (t.atoms.map L.atom.encode)
  tuple_decode? : ∀ vs, L.tuple.decode? (.array vs) = (vs.mapM L.atom.decode?).map Tuple.mk
  /-- A variant that holds nothing is its name. -/
  columnType_encode : ∀ t, L.columnType.encode t = .string t.name
  columnType_decode? : ∀ s t, L.columnType.decode? (.string s) = some t ↔ s = t.name
  /-- A record is the object of its fields, in any order and among others when it is decoded. -/
  column_encode : ∀ c, L.column.encode c
    = .object [("name", L.string.encode c.name), ("type", L.columnType.encode c.type)]
  column_decode? : ∀ {fields}, (fields.map Prod.fst).Nodup →
    L.column.decode? (.object fields) = do
      let name ← (fields.lookup "name").bind L.string.decode?
      let type ← (fields.lookup "type").bind L.columnType.decode?
      return ⟨name, type⟩
  key_encode : ∀ k, L.key.encode k
    = .object [("owner", L.string.encode k.owner), ("program", L.string.encode k.program),
      ("relation", L.string.encode k.relation)]
  key_decode? : ∀ {fields}, (fields.map Prod.fst).Nodup →
    L.key.decode? (.object fields) = do
      let owner ← (fields.lookup "owner").bind L.string.decode?
      let program ← (fields.lookup "program").bind L.string.decode?
      let relation ← (fields.lookup "relation").bind L.string.decode?
      return ⟨owner, program, relation⟩

end Library

end Json

/-! ## The forms -/

theorem Atom.plain_toJson (a : Atom) (depth : Nat) : a.toJson.Plain depth := by
  cases a with
  | int i => exact .int i
  | string s => exact .string s

theorem Tuple.plain_toJson (t : Tuple) (depth : Nat) : t.toJson.Plain (depth + 1) := by
  refine .array fun v hv => ?_
  obtain ⟨a, -, rfl⟩ := List.mem_map.1 hv
  exact a.plain_toJson depth

theorem Json.plain_strings {fields : List (String × String)} (h : (fields.map Prod.fst).Nodup)
    (depth : Nat) : (Json.object (fields.map fun f => (f.1, .string f.2))).Plain (depth + 1) := by
  refine .object (by rwa [List.map_map]) fun f hf => ?_
  obtain ⟨g, -, rfl⟩ := List.mem_map.1 hf
  exact .string g.2

theorem Column.plain_toJson (c : Column) (depth : Nat) : c.toJson.Plain (depth + 1) :=
  @Json.plain_strings [("name", c.name), ("type", c.type.name)] (by simp) depth

theorem Key.plain_toJson (k : Key) (depth : Nat) : k.toJson.Plain (depth + 1) :=
  @Json.plain_strings [("owner", k.owner), ("program", k.program), ("relation", k.relation)]
    (by simp) depth

namespace Json.Library

section Laws

variable {L : Library} (h : L.Documented)

include h

theorem Documented.read?_write {v : Json} (hv : v.Plain 127) : L.read? (L.write v) = some v :=
  h.read? hv (h.write hv)

/-- An atom is encoded as the program puts it out, and so are the other values. -/
theorem Documented.atom_encode (a : Atom) : L.atom.encode a = a.toJson := by
  cases a with
  | int i => rw [h.atom_encode_int, h.int_encode, Atom.toJson]
  | string s => rw [h.atom_encode_string, h.string_encode, Atom.toJson]

theorem Documented.tuple_encode_eq (t : Tuple) : L.tuple.encode t = t.toJson := by
  rw [h.tuple_encode, Tuple.toJson, List.map_congr_left fun a _ => h.atom_encode a]

theorem Documented.column_encode_eq (c : Column) : L.column.encode c = c.toJson := by
  rw [h.column_encode, h.string_encode, h.columnType_encode, Column.toJson]

theorem Documented.key_encode_eq (k : Key) : L.key.encode k = k.toJson := by
  rw [h.key_encode, h.string_encode, h.string_encode, h.string_encode, Key.toJson]

/-- **An integer is decoded as an integer, and a string as a string.** -/
theorem Documented.atom_decode?_toJson (a : Atom) : L.atom.decode? a.toJson = some a := by
  rw [h.atom_decode?]
  cases a with
  | int i =>
    rw [Atom.toJson, h.int_decode?, Text.Numeral.toInt64?_toInt]
    rfl
  | string s =>
    rw [Atom.toJson, h.int_decode?_string, h.string_decode?]
    rfl

theorem Documented.mapM_atom_decode? (atoms : List Atom) :
    (atoms.map Atom.toJson).mapM L.atom.decode? = some atoms := by
  induction atoms with
  | nil => rfl
  | cons a atoms ih =>
    rw [List.map_cons, List.mapM_cons, h.atom_decode?_toJson, ih]
    rfl

theorem Documented.tuple_decode?_toJson (t : Tuple) : L.tuple.decode? t.toJson = some t := by
  rw [Tuple.toJson, h.tuple_decode?, h.mapM_atom_decode?, Option.map_some]

theorem Documented.column_decode?_toJson (c : Column) :
    L.column.decode? c.toJson = some c := by
  rw [Column.toJson, h.column_decode? (by simp)]
  show ((L.string.decode? (.string c.name)).bind fun name =>
    (L.columnType.decode? (.string c.type.name)).bind fun type => some ⟨name, type⟩) = some c
  rw [h.string_decode?, (h.columnType_decode? c.type.name c.type).2 rfl]
  rfl

theorem Documented.key_decode?_toJson (k : Key) : L.key.decode? k.toJson = some k := by
  rw [Key.toJson, h.key_decode? (by simp)]
  show ((L.string.decode? (.string k.owner)).bind fun owner =>
    (L.string.decode? (.string k.program)).bind fun program =>
      (L.string.decode? (.string k.relation)).bind fun relation =>
        some ⟨owner, program, relation⟩) = some k
  rw [h.string_decode?, h.string_decode?, h.string_decode?]
  rfl

/-- A text is read as what was written if the form that was written is decoded as that. -/
theorem Documented.fromText?_of_encode {form : Form α} {a : α} {v : Json}
    (hencode : form.encode a = v) (hv : v.Plain 127) (hdecode : form.decode? v = some a) :
    L.fromText? form (L.toText form a) = some a := by
  rw [fromText?, toText, hencode, h.read?_write hv, Option.bind_some, hdecode]

/-- **The texts of tuples, of columns and of keys are read as what was written, and an atom stays
the integer or the string that it was.** -/
theorem fromText?_toText :
    (∀ t : Tuple, L.fromText? L.tuple (L.toText L.tuple t) = some t) ∧
    (∀ c : Column, L.fromText? L.column (L.toText L.column c) = some c) ∧
    (∀ k : Key, L.fromText? L.key (L.toText L.key k) = some k) ∧
    (∀ i : Int64, L.fromText? L.atom (L.toText L.atom (.int i)) = some (.int i)) ∧
    ∀ s : String, L.fromText? L.atom (L.toText L.atom (.string s)) = some (.string s) := by
  have hatom (a : Atom) : L.fromText? L.atom (L.toText L.atom a) = some a :=
    h.fromText?_of_encode (h.atom_encode a) (a.plain_toJson 127) (h.atom_decode?_toJson a)
  refine ⟨fun t => ?_, fun c => ?_, fun k => ?_, fun i => hatom (.int i),
    fun s => hatom (.string s)⟩
  · exact h.fromText?_of_encode (h.tuple_encode_eq t) (t.plain_toJson 126)
      (h.tuple_decode?_toJson t)
  · exact h.fromText?_of_encode (h.column_encode_eq c) (c.plain_toJson 126)
      (h.column_decode?_toJson c)
  · exact h.fromText?_of_encode (h.key_encode_eq k) (k.plain_toJson 126)
      (h.key_decode?_toJson k)

end Laws

/-! ## The own writer and reader -/

/-- The writer, the reader and the decoders of `BagQuery.Json`. -/
def own : Library where
  write := render
  read? := parse
  int := ⟨fun i => .int i.toInt, int64?⟩
  string := ⟨.string, string?⟩
  atom := ⟨Atom.toJson, Atom.ofJson?⟩
  tuple := ⟨Tuple.toJson, Tuple.ofJson?⟩
  columnType := ⟨fun t => .string t.name, ColumnType.ofJson?⟩
  column := ⟨Column.toJson, Column.ofJson?⟩
  key := ⟨Key.toJson, Key.ofJson?⟩

theorem field?_eq_lookup {fields : List (String × Json)} (h : (fields.map Prod.fst).Nodup)
    (name : String) : field? fields name = fields.lookup name := by
  induction fields with
  | nil => rfl
  | cons f fields ih =>
    obtain ⟨first, v⟩ := f
    obtain ⟨hfirst, hrest⟩ := List.nodup_cons.1 h
    rw [field?, List.filter_cons, List.lookup_cons]
    by_cases hname : first = name
    · have hothers : fields.filter (·.1 == name) = [] := by
        refine List.filter_eq_nil_iff.2 fun g hg heq => hfirst ?_
        rw [hname, ← beq_iff_eq.1 heq]
        exact List.mem_map.2 ⟨g, hg, rfl⟩
      rw [if_pos (beq_iff_eq.2 hname), hothers, beq_iff_eq.2 hname.symm]
    · rw [if_neg (by rwa [beq_iff_eq]), beq_false_of_ne (Ne.symm hname)]
      exact ih hrest

theorem record?_object {fields : List (String × Json)} (h : (fields.map Prod.fst).Nodup)
    (names : List String) : (object fields).record? names = names.mapM (fields.lookup ·) := by
  rw [record?, funext (field?_eq_lookup h)]

theorem column_ofJson?_object {fields : List (String × Json)} (h : (fields.map Prod.fst).Nodup) :
    Column.ofJson? (.object fields) = do
      let name ← (fields.lookup "name").bind string?
      let type ← (fields.lookup "type").bind ColumnType.ofJson?
      return ⟨name, type⟩ := by
  rw [Column.ofJson?, record?_object h]
  simp only [List.mapM_cons, List.mapM_nil]
  cases fields.lookup "name" with
  | none => rfl
  | some name =>
    cases fields.lookup "type" with
    | none => cases hname : name.string? <;> simp [hname]
    | some type => rfl

theorem key_ofJson?_object {fields : List (String × Json)} (h : (fields.map Prod.fst).Nodup) :
    Key.ofJson? (.object fields) = do
      let owner ← (fields.lookup "owner").bind string?
      let program ← (fields.lookup "program").bind string?
      let relation ← (fields.lookup "relation").bind string?
      return ⟨owner, program, relation⟩ := by
  rw [Key.ofJson?, record?_object h]
  simp only [List.mapM_cons, List.mapM_nil]
  cases fields.lookup "owner" with
  | none => rfl
  | some owner =>
    cases fields.lookup "program" with
    | none => cases howner : owner.string? <;> simp [howner]
    | some program =>
      cases fields.lookup "relation" with
      | none =>
        cases howner : owner.string? <;> cases hprogram : program.string? <;>
          simp [howner, hprogram]
      | some relation => rfl

theorem own_documented : own.Documented where
  write := Plain.spells_render
  read? _ h := h.parse
  int_encode _ := rfl
  int_decode? _ := rfl
  int_decode?_string _ := rfl
  string_encode _ := rfl
  string_decode? _ := rfl
  atom_encode_int _ := rfl
  atom_encode_string _ := rfl
  atom_decode? _ := rfl
  tuple_encode _ := rfl
  tuple_decode? _ := rfl
  columnType_encode _ := rfl
  columnType_decode? _ t := ⟨ColumnType.ofName?_eq_some, fun h => h ▸ ColumnType.ofName?_name t⟩
  column_encode _ := rfl
  column_decode? := column_ofJson?_object
  key_encode _ := rfl
  key_decode? := key_ofJson?_object

end Json.Library

/-- The least integer, and the strings of digits, of nothing, of a quote, a backslash and controls,
and of a character beyond the code units. -/
def Tuple.leastAndStrings : Tuple :=
  ⟨[.int (-9223372036854775808), .string "12", .string "", .string "\"\\\n\x01", .string "😀"]⟩

/-- Their texts are read again, and so are those of a column and of a key. -/
theorem Json.Library.fromText?_toText_leastAndStrings :
    let c : Column := ⟨"R.n", .int⟩
    let k : Key := ⟨"owner", "run", "R\t1"⟩
    own.Documented ∧
      own.toText own.tuple .leastAndStrings
        = "[-9223372036854775808,\"12\",\"\",\"\\\"\\\\\\n\\u0001\",\"😀\"]" ∧
      own.fromText? own.tuple (own.toText own.tuple .leastAndStrings) = some .leastAndStrings ∧
      own.toText own.column c = "\x7b\"name\":\"R.n\",\"type\":\"int\"\x7d" ∧
      own.fromText? own.column (own.toText own.column c) = some c ∧
      own.fromText? own.key (own.toText own.key k) = some k ∧
      own.fromText? own.atom (own.toText own.atom (.int 12)) = some (.int 12) ∧
      own.fromText? own.atom (own.toText own.atom (.string "12")) = some (.string "12") := by
  intro c k
  obtain ⟨htuple, hcolumn, hkey, hint, hstring⟩ := fromText?_toText own_documented
  refine ⟨own_documented, ?_, htuple _, ?_, hcolumn c, hkey k, hint 12, hstring "12"⟩
  · decide +kernel
  · decide +kernel

end BagQuery
