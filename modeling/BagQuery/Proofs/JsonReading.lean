import BagQuery.Json.Parser
import BagQuery.Proofs.JsonGrammar
import BagQuery.Proofs.TextLines
import Mathlib.Data.List.Basic

/-!
# Reading JSON text

Each text that the grammar gives a value is read as that value (`Json.Spells.parse`).  Its pieces
are read one by one.  A string is read character by character, however they are escaped (`Reads`).
A number has to be followed by something that ends it (`Stops`), which the commas and brackets of
arrays and objects do.  The induction on the grammar carries that a text is read with fuel for twice
its length, whatever ends it (`ReadsBack`).
-/

namespace BagQuery.Json

open Text

/-! ## Strings -/

theorem digit?_of_isHex {c : Char} {d : Nat} (h : IsHex c d) : Numeral.digit? 16 c = some d := by
  have key : ∀ d : Fin 16, Numeral.digit? 16 d.val.digitChar = some d.val ∧
      Numeral.digit? 16 d.val.digitChar.toUpper = some d.val := by decide
  obtain ⟨hd, rfl | rfl⟩ := h
  · exact (key ⟨d, hd⟩).1
  · exact (key ⟨d, hd⟩).2

theorem SpellsUnit.exists_codeUnit? {ds : List Char} {u : Nat} (h : SpellsUnit ds u) :
    ∃ a b c d, ds = [a, b, c, d] ∧ codeUnit? a b c d = some u := by
  obtain ⟨ha, hb, hc, hd⟩ := h
  refine ⟨_, _, _, _, rfl, ?_⟩
  rw [codeUnit?, Numeral.value?, List.isEmpty_cons, if_neg Bool.false_ne_true]
  simp only [Numeral.extend?, digit?_of_isHex ha, digit?_of_isHex hb, digit?_of_isHex hc,
    digit?_of_isHex hd, Nat.zero_mul, Nat.zero_add]

/-- The text is read as pieces that make up the character. -/
def Reads (text : List Char) (c : Char) : Prop :=
  ∃ ps : List Piece,
    (∀ rest, pieces? (text ++ rest) = (pieces? rest).map fun r => (ps ++ r.1, r.2)) ∧
      ∀ qs, join? none (ps ++ qs) = (join? none qs).map (c :: ·)

theorem pieces?_letter {letter c : Char} (hletter : letter ≠ 'u')
    (h : unescapeChar? letter = some c) (rest : List Char) :
    pieces? ('\\' :: letter :: rest) = (pieces? rest).map fun r => (.char c :: r.1, r.2) := by
  rw [pieces?, h]
  · cases pieces? rest <;> rfl
  · intro _ _ _ _ _ hu
    exact absurd hu hletter

theorem pieces?_unit {a b c d : Char} {u : Nat} (h : codeUnit? a b c d = some u)
    (rest : List Char) : pieces? ('\\' :: 'u' :: a :: b :: c :: d :: rest)
      = (pieces? rest).map fun r => (.unit u :: r.1, r.2) := by
  rw [pieces?, h]
  cases pieces? rest <;> rfl

/-- A character is no half of a pair. -/
theorem join?_unit (c : Char) (ps : List Piece) :
    join? none (.unit c.toNat :: ps) = (join? none ps).map (c :: ·) := by
  have hvalid : c.toNat < 0xd800 ∨ 0xdfff < c.toNat ∧ c.toNat < 0x110000 := c.valid
  have hhigh : isHigh c.toNat = false := by
    rw [isHigh, Bool.and_eq_false_iff, decide_eq_false_iff_not, decide_eq_false_iff_not]
    omega
  have hlow : isLow c.toNat = false := by
    rw [isLow, Bool.and_eq_false_iff, decide_eq_false_iff_not, decide_eq_false_iff_not]
    omega
  rw [join?, hhigh, hlow, Char.ofNat_toNat]
  rfl

theorem join?_pair {high low : Nat} (hhigh : 0xd800 ≤ high ∧ high < 0xdc00)
    (hlow : 0xdc00 ≤ low ∧ low < 0xe000) (ps : List Piece) :
    join? none (.unit high :: .unit low :: ps)
      = (join? none ps).map (pairChar high low :: ·) := by
  have hfirst : isHigh high = true := by
    rw [isHigh, Bool.and_eq_true, decide_eq_true_eq, decide_eq_true_eq]
    exact hhigh
  have hsecond : isLow low = true := by
    rw [isLow, Bool.and_eq_true, decide_eq_true_eq, decide_eq_true_eq]
    exact hlow
  rw [join?, hfirst, if_pos rfl, join?, hsecond, if_pos rfl]

theorem SpellsChar.reads {text : List Char} {c : Char} (h : SpellsChar text c) :
    Reads text c := by
  cases h with
  | raw hquote hbackslash hc =>
    refine ⟨[.char c], fun rest => ?_, fun _ => rfl⟩
    rw [List.cons_append, List.nil_append, pieces?]
    · rw [if_neg (not_or.2 ⟨hbackslash, by omega⟩)]
      rfl
    · exact hquote
    · exact fun _ _ _ _ _ h _ => hbackslash h
    · exact fun _ _ h _ => hbackslash h
  | @letter letter _ h =>
    have key : ∀ e ∈ escapes, e.1 ≠ 'u' ∧ unescapeChar? e.1 = some e.2 := by decide
    obtain ⟨hletter, h⟩ := key (letter, c) h
    exact ⟨[.char c], pieces?_letter hletter h, fun _ => rfl⟩
  | unit h =>
    obtain ⟨_, _, _, _, rfl, hunit⟩ := h.exists_codeUnit?
    exact ⟨[.unit _], pieces?_unit hunit, join?_unit _⟩
  | @pair _ _ high low _ hds hes hhigh hlow hc =>
    obtain ⟨_, _, _, _, rfl, hfirst⟩ := hds.exists_codeUnit?
    obtain ⟨_, _, _, _, rfl, hsecond⟩ := hes.exists_codeUnit?
    refine ⟨[.unit high, .unit low], fun rest => ?_, fun qs => ?_⟩
    · refine (pieces?_unit hfirst _).trans ?_
      refine (congrArg _ (pieces?_unit hsecond rest)).trans ?_
      rw [Option.map_map]
      rfl
    · refine (join?_pair hhigh hlow qs).trans ?_
      rw [pairChar, ← hc, Char.ofNat_toNat]

theorem SpellsChars.exists_pieces {text cs : List Char} (h : SpellsChars text cs)
    (rest : List Char) :
    ∃ ps, pieces? (text ++ '"' :: rest) = some (ps, rest) ∧ join? none ps = some cs := by
  induction h with
  | nil => exact ⟨[], rfl, rfl⟩
  | cons hc _ ih =>
    obtain ⟨qs, hqs, hcs⟩ := ih
    obtain ⟨ps, hps, hc⟩ := hc.reads
    refine ⟨ps ++ qs, ?_, ?_⟩
    · rw [List.append_assoc, hps, hqs]
      rfl
    · rw [hc, hcs]
      rfl

/-- **A string is read from each of its texts.** -/
theorem SpellsString.exists_stringTail? {text : List Char} {s : String} (h : SpellsString text s) :
    ∃ tail, text = '"' :: tail ∧
      ∀ rest, stringTail? (tail ++ rest) = some (some s.toList, rest) := by
  obtain ⟨h⟩ := h
  refine ⟨_, rfl, fun rest => ?_⟩
  obtain ⟨ps, hps, hcs⟩ := h.exists_pieces rest
  rw [List.append_assoc, List.singleton_append, stringTail?, hps, String.toList_ofList, ← hcs]
  rfl

/-! ## Numbers -/

/-- What follows does not go on with a number: it is nothing, or a comma or a closing bracket. -/
def Stops (rest : List Char) : Prop := ∀ c ∈ rest.head?, c = ',' ∨ c = ']' ∨ c = '\x7d'

theorem Stops.nil : Stops [] := nofun

theorem Stops.cons {c : Char} (h : c = ',' ∨ c = ']' ∨ c = '\x7d') (rest : List Char) :
    Stops (c :: rest) := by
  rintro _ ⟨⟩
  exact h

theorem fraction?_of_stops {rest : List Char} (h : Stops rest) :
    fraction? rest = some (false, rest) := by
  unfold fraction?
  split
  · exact absurd (h '.' rfl) (by decide)
  · rfl

theorem exponent?_of_stops {rest : List Char} (h : Stops rest) :
    exponent? rest = some (false, rest) := by
  cases rest with
  | nil => rfl
  | cons c rest =>
    have hc : ¬(c = 'e' ∨ c = 'E') := by
      rintro (rfl | rfl)
      · exact absurd (h 'e' rfl) (by decide)
      · exact absurd (h 'E' rfl) (by decide)
    unfold exponent?
    exact if_neg hc

theorem head?_digits {n : Nat} (h : 0 < n) : (Numeral.digits 10 n).head? ≠ some '0' := by
  fun_induction Numeral.digits 10 n with
  | case1 n hn =>
    have key : ∀ d : Fin 10, 0 < d.val → Numeral.digitChar d.val ≠ '0' := by decide
    intro hzero
    exact key ⟨n, by omega⟩ h (Option.some.inj hzero)
  | case2 n hn ih =>
    rw [List.head?_append_of_ne_nil _ (Numeral.digits_ne_nil 10 _)]
    exact ih (by omega)

/-- A number is written without zeros in front. -/
theorem no_superfluous_zero (n : Nat) :
    ((Numeral.digits 10 n).head? == some '0' && decide ((Numeral.digits 10 n).length > 1))
      = false := by
  rcases Nat.eq_zero_or_pos n with rfl | hn
  · rw [Numeral.digits]
    rfl
  · rw [beq_eq_false_iff_ne.2 (head?_digits hn), Bool.false_and]

theorem unsigned?_digits {negative : Bool} {n : Nat} (hn : negative = true → 0 < n)
    {rest : List Char} (hrest : Stops rest) :
    unsigned? negative (Numeral.digits 10 n ++ rest)
      = some (.int (if negative then -(n : Int) else n), rest) := by
  have hdigits : ∀ d ∈ Numeral.digits 10 n, d.isDigit = true :=
    fun d => Numeral.isDigit_of_mem_digits
  have hstop : ∀ d ∈ rest.head?, d.isDigit = false := by
    intro d hd
    rcases hrest d hd with rfl | rfl | rfl <;> rfl
  have hsign : (negative && n == 0) = false := by
    cases negative with
    | false => rfl
    | true => exact beq_eq_false_iff_ne.2 (Nat.ne_of_gt (hn rfl))
  have hvalue : Numeral.value? 10 (Numeral.digits 10 n) = some n :=
    Numeral.value?_digits (by decide) (by decide) n
  unfold unsigned?
  dsimp only
  rw [takeWhile_append_stop hdigits hstop, dropWhile_append_stop hdigits hstop, hvalue]
  simp only [Option.bind_eq_bind, Option.bind_some, no_superfluous_zero, fraction?_of_stops hrest,
    exponent?_of_stops hrest, hsign]
  rfl

/-- **A number is read as it was before it was written.** -/
theorem number?_intChars (i : Int) {rest : List Char} (hrest : Stops rest) :
    number? (Numeral.intChars i ++ rest) = some (.int i, rest) := by
  cases i with
  | ofNat n =>
    unfold number?
    split
    · next cs h =>
      have hminus : (Numeral.digits 10 n ++ rest).head? = some '-' := by
        rw [show Numeral.digits 10 n ++ rest = '-' :: cs from h]
        rfl
      rw [List.head?_append_of_ne_nil _ (Numeral.digits_ne_nil 10 n)] at hminus
      exact absurd (Numeral.isDigit_of_mem_digits (List.mem_of_mem_head? hminus)) (by decide)
    · exact unsigned?_digits (fun h : false = true => nomatch h) hrest
  | negSucc n => exact unsigned?_digits (fun _ => Nat.succ_pos n) hrest

/-! ## Values -/

theorem skipBlanks_cons {c : Char} (h : isBlank c = false) (cs : List Char) :
    skipBlanks (c :: cs) = c :: cs :=
  List.dropWhile_cons_of_neg (Bool.not_eq_true _ ▸ h)

theorem numberHead_ne {c d : Char} (hc : c.isDigit = true ∨ c = '-') (hdigit : d.isDigit = false)
    (hminus : d ≠ '-') : c ≠ d := by
  rintro rfl
  rcases hc with hc | hc
  · exact absurd hc (Bool.eq_false_iff.1 hdigit)
  · exact hminus hc

theorem isBlank_numberHead {c : Char} (hc : c.isDigit = true ∨ c = '-') : isBlank c = false := by
  simp only [isBlank, Bool.or_eq_false_iff, beq_eq_false_iff_ne, numberHead_ne hc, ne_eq,
    not_false_eq_true, and_self, Char.reduceEq, Char.reduceIsDigit]

section Reading

variable {fuel : Nat} {c : Char} {cs more rest : List Char} {v : Json} {vs : List Json}
  {name : List Char} {fields : List (String × Json)}

theorem value?_string (h : stringTail? cs = some (some name, rest)) :
    value? (fuel + 1) ('"' :: cs) = some (.string (.ofList name), rest) := by
  rw [value?, skipBlanks_cons rfl]
  show (stringTail? cs).map ofStringTail = _
  rw [h]
  rfl

theorem value?_number (hc : c.isDigit = true ∨ c = '-') :
    value? (fuel + 1) (c :: cs) = number? (c :: cs) := by
  rw [value?, skipBlanks_cons (isBlank_numberHead hc)]
  split
  iterate 6 (· next h => exact absurd (List.cons.inj h).1 (numberHead_ne hc rfl (by decide)))
  · rfl

theorem value?_array (hblank : isBlank c = false) (hc : c ≠ ']') :
    value? (fuel + 1) ('[' :: c :: cs)
      = (items? fuel (c :: cs)).map fun (vs, rest) => (.array vs, rest) := by
  have hopen : skipBlanks ('[' :: c :: cs) = '[' :: c :: cs := skipBlanks_cons rfl _
  simp only [value?, hopen, skipBlanks_cons hblank]
  split
  · next h => exact absurd (List.cons.inj h).1 hc
  · rfl

theorem value?_object :
    value? (fuel + 1) ('\x7b' :: '"' :: cs) = fields? fuel ('"' :: cs) := by
  rw [value?, skipBlanks_cons rfl]
  rfl

theorem items?_last (h : value? fuel cs = some (v, ']' :: rest)) :
    items? (fuel + 1) cs = some ([v], rest) := by
  rw [items?, h]
  rfl

theorem items?_more (h : value? fuel cs = some (v, ',' :: more))
    (hmore : items? fuel more = some (vs, rest)) :
    items? (fuel + 1) cs = some (v :: vs, rest) := by
  rw [items?, h]
  show (items? fuel more).map _ = _
  rw [hmore]
  rfl

theorem fields?_last (hname : stringTail? cs = some (some name, ':' :: more))
    (h : value? fuel more = some (v, '\x7d' :: rest)) :
    fields? (fuel + 1) ('"' :: cs) = some (.object [(.ofList name, v)], rest) := by
  rw [fields?, skipBlanks_cons rfl]
  simp only [hname, skipBlanks_cons (show isBlank ':' = false from rfl), h]
  rfl

theorem fields?_more {others : List Char} (hname : stringTail? cs = some (some name, ':' :: more))
    (h : value? fuel more = some (v, ',' :: others))
    (hothers : fields? fuel others = some (.object fields, rest)) :
    fields? (fuel + 1) ('"' :: cs) = some (.object ((.ofList name, v) :: fields), rest) := by
  rw [fields?, skipBlanks_cons rfl]
  simp only [hname, skipBlanks_cons (show isBlank ':' = false from rfl), h,
    skipBlanks_cons (show isBlank ',' = false from rfl), hothers]
  rfl

end Reading

/-- The value is read from the text, whatever stops it, with enough fuel for the text. -/
def ReadsBack (text : List Char) (v : Json) : Prop :=
  ∀ fuel rest, 2 * text.length ≤ fuel + 1 → Stops rest →
    value? fuel (text ++ rest) = some (v, rest)

/-- There is some fuel for a text that is not empty. -/
theorem ReadsBack.of_succ {c : Char} {cs : List Char} {v : Json}
    (h : ∀ fuel rest, 2 * cs.length ≤ fuel → Stops rest →
      value? (fuel + 1) (c :: cs ++ rest) = some (v, rest)) : ReadsBack (c :: cs) v := by
  intro fuel rest hfuel hrest
  rw [List.length_cons] at hfuel
  cases fuel with
  | zero => omega
  | succ fuel => exact h fuel rest (by omega) hrest

theorem intChars_eq_cons (i : Int) :
    ∃ c cs, Numeral.intChars i = c :: cs ∧ (c.isDigit = true ∨ c = '-') := by
  obtain ⟨c, cs, hcs⟩ := List.exists_cons_of_ne_nil (Numeral.intChars_ne_nil i)
  exact ⟨c, cs, hcs, Numeral.mem_intChars (hcs ▸ List.mem_cons_self)⟩

theorem ReadsBack.int (i : Int) : ReadsBack (toString i).toList (.int i) := by
  have hnumber := @number?_intChars i
  obtain ⟨c, cs, hcs, hc⟩ := intChars_eq_cons i
  rw [← Numeral.intChars_eq_toString]
  rw [hcs] at hnumber ⊢
  refine .of_succ fun fuel rest _ hrest => ?_
  rw [List.cons_append, value?_number hc]
  exact hnumber hrest

theorem ReadsBack.string {text : List Char} {s : String} (h : SpellsString text s) :
    ReadsBack text (.string s) := by
  obtain ⟨tail, rfl, htail⟩ := h.exists_stringTail?
  refine .of_succ fun fuel rest _ _ => ?_
  rw [List.cons_append, value?_string (htail rest), String.ofList_toList]

/-- A text of a value begins with no blank, and does not close an array. -/
theorem Spells.eq_cons {text : List Char} {v : Json} (h : Spells text v) :
    ∃ c cs, text = c :: cs ∧ isBlank c = false ∧ c ≠ ']' := by
  cases h with
  | int i =>
    rw [← Numeral.intChars_eq_toString]
    obtain ⟨c, cs, hcs, hc⟩ := intChars_eq_cons i
    exact ⟨c, cs, hcs, isBlank_numberHead hc, numberHead_ne hc rfl (by decide)⟩
  | string h =>
    obtain ⟨tail, rfl, -⟩ := h.exists_stringTail?
    exact ⟨'"', tail, rfl, rfl, by decide⟩
  | _ => exact ⟨_, _, rfl, rfl, by decide⟩

theorem SpellsItems.eq_cons {text : List Char} {vs : List Json} (h : SpellsItems text vs) :
    ∃ c cs, text = c :: cs ∧ isBlank c = false ∧ c ≠ ']' := by
  cases h with
  | last h => exact h.eq_cons
  | more h _ =>
    obtain ⟨c, cs, rfl, hc⟩ := h.eq_cons
    exact ⟨c, _, rfl, hc⟩

theorem SpellsFields.eq_cons {text : List Char} {fields : List (String × Json)}
    (h : SpellsFields text fields) : ∃ cs, text = '"' :: cs := by
  cases h with
  | last hname _ | more hname _ _ =>
    obtain ⟨tail, rfl, -⟩ := hname.exists_stringTail?
    exact ⟨_, rfl⟩

mutual

/-- **A value is read from each of its texts.** -/
theorem Spells.readsBack {text : List Char} {v : Json} (h : Spells text v) : ReadsBack text v := by
  cases h with
  | int i => exact .int i
  | string h => exact .string h
  | noItems => exact .of_succ fun _ _ _ _ => rfl
  | array h =>
    refine .of_succ fun fuel rest hfuel _ => ?_
    rw [List.length_append, List.length_singleton] at hfuel
    have hitems := h.readsBack fuel (by omega) rest
    obtain ⟨c, cs, rfl, hblank, hc⟩ := h.eq_cons
    rw [List.cons_append, List.append_assoc, List.singleton_append, List.cons_append,
      value?_array hblank hc]
    rw [List.cons_append] at hitems
    rw [hitems]
    rfl
  | noFields => exact .of_succ fun _ _ _ _ => rfl
  | object h =>
    refine .of_succ fun fuel rest hfuel _ => ?_
    rw [List.length_append, List.length_singleton] at hfuel
    have hfields := h.readsBack fuel (by omega) rest
    obtain ⟨cs, rfl⟩ := h.eq_cons
    rw [List.cons_append, List.append_assoc, List.singleton_append, List.cons_append,
      value?_object]
    exact hfields

/-- So are values up to the bracket behind them. -/
theorem SpellsItems.readsBack {text : List Char} {vs : List Json} (h : SpellsItems text vs)
    (fuel : Nat) (hfuel : 2 * text.length ≤ fuel) (rest : List Char) :
    items? fuel (text ++ ']' :: rest) = some (vs, rest) := by
  cases h with
  | last h =>
    have hv := h.readsBack
    obtain ⟨c, cs, rfl, -⟩ := h.eq_cons
    rw [List.length_cons] at hfuel
    obtain ⟨fuel, rfl⟩ : ∃ n, fuel = n + 1 := ⟨fuel - 1, by omega⟩
    exact items?_last (hv fuel _ (by rw [List.length_cons]; omega) (.cons (by decide) rest))
  | more h hothers =>
    rw [List.length_append, List.length_cons] at hfuel
    obtain ⟨fuel, rfl⟩ : ∃ n, fuel = n + 1 := ⟨fuel - 1, by omega⟩
    rw [List.append_assoc, List.cons_append]
    exact items?_more (h.readsBack fuel _ (by omega) (.cons (by decide) _))
      (hothers.readsBack fuel (by omega) rest)

/-- So are fields up to the brace behind them. -/
theorem SpellsFields.readsBack {text : List Char} {fields : List (String × Json)}
    (h : SpellsFields text fields) (fuel : Nat) (hfuel : 2 * text.length ≤ fuel)
    (rest : List Char) : fields? fuel (text ++ '\x7d' :: rest) = some (.object fields, rest) := by
  cases h with
  | last hname h =>
    rw [List.length_append, List.length_cons] at hfuel
    obtain ⟨fuel, rfl⟩ : ∃ n, fuel = n + 1 := ⟨fuel - 1, by omega⟩
    obtain ⟨tail, rfl, htail⟩ := hname.exists_stringTail?
    rw [List.append_assoc, List.cons_append, List.cons_append,
      fields?_last (htail _) (h.readsBack fuel _ (by omega) (.cons (by decide) rest)),
      String.ofList_toList]
  | more hname h hothers =>
    rw [List.length_append, List.length_append, List.length_cons, List.length_cons] at hfuel
    obtain ⟨fuel, rfl⟩ : ∃ n, fuel = n + 1 := ⟨fuel - 1, by omega⟩
    obtain ⟨tail, rfl, htail⟩ := hname.exists_stringTail?
    rw [List.append_assoc, List.append_assoc, List.cons_append, List.cons_append,
      List.cons_append,
      fields?_more (htail _) (h.readsBack fuel _ (by omega) (.cons (by decide) _))
        (hothers.readsBack fuel (by omega) rest), String.ofList_toList]

end

/-- **Each text of a value is read as the value.** -/
theorem Spells.parse {text : String} {v : Json} (h : Spells text.toList v) :
    Json.parse text = some v := by
  have hvalue := h.readsBack (2 * text.toList.length + 2) [] (by omega) .nil
  rw [List.append_nil] at hvalue
  rw [Json.parse]
  simp only [hvalue]
  rfl

-- A pair of units is one character, and a slash may be escaped.
example : parse "\"\\ud83d\\uDE00\\/\"" = some (.string "😀/") := by
  rfl

end BagQuery.Json
