import BagQuery.Json.Basic
import BagQuery.Proofs.DecimalText

/-!
# The grammar of JSON text

The texts of values that are made of integers and strings (`Json.Spells`), without blanks.  An
integer is written in decimal.  A character of a string stands for itself or is escaped: by a
letter, by its code unit or, beyond the code units, by a pair of them (`Json.SpellsChar`).  Most
characters have several such texts, so a value has many texts, one of which `Json.render` writes
(`Json.Plain.spells_render`).
-/

namespace BagQuery.Json

open Text

/-! ## Strings -/

/-- The letters that may stand behind a backslash, with the characters that they stand for. -/
def escapes : List (Char × Char) :=
  [('"', '"'), ('\\', '\\'), ('/', '/'), ('b', '\x08'), ('f', '\x0c'), ('n', '\n'), ('r', '\r'),
    ('t', '\t')]

/-- The character is the hexadecimal digit, in either case. -/
def IsHex (c : Char) (d : Nat) : Prop := d < 16 ∧ (c = d.digitChar ∨ c = d.digitChar.toUpper)

/-- Four hexadecimal digits of a code unit. -/
inductive SpellsUnit : List Char → Nat → Prop
  | mk {a b c d : Char} {w x y z : Nat} (ha : IsHex a w) (hb : IsHex b x) (hc : IsHex c y)
      (hd : IsHex d z) : SpellsUnit [a, b, c, d] (((w * 16 + x) * 16 + y) * 16 + z)

/-- The text stands for the character inside a string. -/
inductive SpellsChar : List Char → Char → Prop
  | raw {c : Char} (hquote : c ≠ '"') (hbackslash : c ≠ '\\') (hc : 0x20 ≤ c.toNat) :
      SpellsChar [c] c
  | letter {letter c : Char} (h : (letter, c) ∈ escapes) : SpellsChar ['\\', letter] c
  | unit {ds : List Char} {c : Char} (h : SpellsUnit ds c.toNat) : SpellsChar ('\\' :: 'u' :: ds) c
  | pair {ds es : List Char} {high low : Nat} {c : Char} (hds : SpellsUnit ds high)
      (hes : SpellsUnit es low) (hhigh : 0xd800 ≤ high ∧ high < 0xdc00)
      (hlow : 0xdc00 ≤ low ∧ low < 0xe000)
      (hc : c.toNat = 0x10000 + (high - 0xd800) * 0x400 + (low - 0xdc00)) :
      SpellsChar ('\\' :: 'u' :: (ds ++ '\\' :: 'u' :: es)) c

/-- The text stands for the characters inside a string. -/
inductive SpellsChars : List Char → List Char → Prop
  | nil : SpellsChars [] []
  | cons {text more : List Char} {c : Char} {cs : List Char} (hc : SpellsChar text c)
      (hcs : SpellsChars more cs) : SpellsChars (text ++ more) (c :: cs)

/-- The text is the string between its quotes. -/
inductive SpellsString : List Char → String → Prop
  | mk {text cs : List Char} (h : SpellsChars text cs) :
      SpellsString ('"' :: (text ++ ['"'])) (String.ofList cs)

/-! ## Values -/

mutual

/-- The text is the value, which is made of integers and strings. -/
inductive Spells : List Char → Json → Prop
  | int (i : Int) : Spells (toString i).toList (.int i)
  | string {text : List Char} {s : String} (h : SpellsString text s) : Spells text (.string s)
  | noItems : Spells ['[', ']'] (.array [])
  | array {text : List Char} {vs : List Json} (h : SpellsItems text vs) :
      Spells ('[' :: (text ++ [']'])) (.array vs)
  | noFields : Spells ['\x7b', '\x7d'] (.object [])
  | object {text : List Char} {fields : List (String × Json)} (h : SpellsFields text fields) :
      Spells ('\x7b' :: (text ++ ['\x7d'])) (.object fields)

/-- The text is the values, at least one, with commas between them. -/
inductive SpellsItems : List Char → List Json → Prop
  | last {text : List Char} {v : Json} (h : Spells text v) : SpellsItems text [v]
  | more {text others : List Char} {v : Json} {vs : List Json} (h : Spells text v)
      (hothers : SpellsItems others vs) : SpellsItems (text ++ ',' :: others) (v :: vs)

/-- The text is the fields, at least one, with commas between them. -/
inductive SpellsFields : List Char → List (String × Json) → Prop
  | last {name text : List Char} {s : String} {v : Json} (hname : SpellsString name s)
      (h : Spells text v) : SpellsFields (name ++ ':' :: text) [(s, v)]
  | more {name text others : List Char} {s : String} {v : Json} {fields : List (String × Json)}
      (hname : SpellsString name s) (h : Spells text v) (hothers : SpellsFields others fields) :
      SpellsFields (name ++ ':' :: text ++ ',' :: others) ((s, v) :: fields)

end

/-- A value of 64-bit integers and strings, nested at most so deep.  No object has two fields of
one name. -/
inductive Plain : Nat → Json → Prop
  | int {depth : Nat} (i : Int64) : Plain depth (.int i.toInt)
  | string {depth : Nat} (s : String) : Plain depth (.string s)
  | array {depth : Nat} {vs : List Json} (h : ∀ v ∈ vs, Plain depth v) :
      Plain (depth + 1) (.array vs)
  | object {depth : Nat} {fields : List (String × Json)} (hnames : (fields.map Prod.fst).Nodup)
      (h : ∀ f ∈ fields, Plain depth f.2) : Plain (depth + 1) (.object fields)

/-! ## What is written -/

theorem isHex_digitChar {d : Nat} (h : d < 16) : IsHex (Numeral.digitChar d) d := by
  have key : ∀ d : Fin 16, Numeral.digitChar d.val = d.val.digitChar := by decide
  exact ⟨h, .inl (key ⟨d, h⟩)⟩

theorem spellsChar_unit {a b : Nat} {c : Char} (ha : a < 16) (hb : b < 16)
    (h : c.toNat = 16 * a + b) :
    SpellsChar ['\\', 'u', '0', '0', Numeral.digitChar a, Numeral.digitChar b] c := by
  have hzero : IsHex '0' 0 := isHex_digitChar (by decide : 0 < 16)
  refine .unit ?_
  rw [h, show 16 * a + b = ((0 * 16 + 0) * 16 + a) * 16 + b by omega]
  exact .mk hzero hzero (isHex_digitChar ha) (isHex_digitChar hb)

theorem spellsChar_escapeChar (c : Char) : SpellsChar (escapeChar c) c := by
  unfold escapeChar
  repeat' split
  iterate 7 (· next h => exact .letter (by rw [h]; decide))
  · exact spellsChar_unit (by decide : 0 < 16) (by omega) (by omega)
  · exact spellsChar_unit (by decide : 1 < 16) (by omega) (by omega)
  · exact .raw ‹_› ‹_› (by omega)

theorem spellsChars_flatMap (cs : List Char) : SpellsChars (cs.flatMap escapeChar) cs := by
  induction cs with
  | nil => exact .nil
  | cons c cs ih => exact .cons (spellsChar_escapeChar c) ih

theorem spellsString_stringChars (s : String) : SpellsString (stringChars s) s := by
  have h := SpellsString.mk (spellsChars_flatMap s.toList)
  rw [String.ofList_toList] at h
  exact h

theorem spellsItems_itemsChars {vs : List Json} (h : ∀ v ∈ vs, Spells v.chars v) (hvs : vs ≠ []) :
    SpellsItems (itemsChars vs) vs := by
  induction vs with
  | nil => exact absurd rfl hvs
  | cons v vs ih =>
    have hv := h v List.mem_cons_self
    cases vs with
    | nil => exact .last hv
    | cons w vs =>
      exact .more hv (ih (fun u hu => h u (List.mem_cons_of_mem v hu)) (List.cons_ne_nil w vs))

theorem spellsFields_fieldsChars {fields : List (String × Json)}
    (h : ∀ f ∈ fields, Spells f.2.chars f.2) (hfields : fields ≠ []) :
    SpellsFields (fieldsChars fields) fields := by
  induction fields with
  | nil => exact absurd rfl hfields
  | cons f fields ih =>
    have hname := spellsString_stringChars f.1
    have hv := h f List.mem_cons_self
    cases fields with
    | nil => exact .last hname hv
    | cons g fields =>
      exact .more hname hv
        (ih (fun u hu => h u (List.mem_cons_of_mem f hu)) (List.cons_ne_nil g fields))

theorem Plain.spells_chars {depth : Nat} {v : Json} (h : Plain depth v) : Spells v.chars v := by
  induction h with
  | int i =>
    rw [chars, Numeral.intChars_eq_toString]
    exact .int i.toInt
  | string s => exact .string (spellsString_stringChars s)
  | @array _ vs _ ih =>
    rw [chars]
    cases vs with
    | nil => exact .noItems
    | cons v vs => exact .array (spellsItems_itemsChars ih (List.cons_ne_nil v vs))
  | @object _ fields _ _ ih =>
    rw [chars]
    cases fields with
    | nil => exact .noFields
    | cons f fields => exact .object (spellsFields_fieldsChars ih (List.cons_ne_nil f fields))

/-- **What is written is a text of the value.** -/
theorem Plain.spells_render {depth : Nat} {v : Json} (h : Plain depth v) :
    Spells v.render.toList v := by
  rw [render, String.toList_ofList]
  exact h.spells_chars

end BagQuery.Json
