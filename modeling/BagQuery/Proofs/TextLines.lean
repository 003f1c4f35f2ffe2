import BagQuery.Text.Lines

/-!
# The lines of a text

A file is cut into lines as bytes, and only then are the lines decoded.  In UTF-8 a byte below 128
stands for its own character and for nothing else (`utf8EncodeChar_of_mem`), so the cuts are at the
newlines of the text and a carriage return that is dropped is one of the text.

* `lines_joinLines`: a file that is written line by line is read as these lines, each without the
  carriage return that may stand in front of its newline.
-/

namespace BagQuery.Text

/-! ## Pieces of a text -/

section Stop

variable {p : Char → Bool} {text rest : List Char} (htext : ∀ d ∈ text, p d = true)
  (hrest : ∀ d ∈ rest.head?, p d = false)

include htext hrest

theorem takeWhile_append_stop : (text ++ rest).takeWhile p = text := by
  rw [List.takeWhile_append_of_pos htext]
  cases rest with
  | nil => exact List.append_nil text
  | cons d rest =>
    rw [List.takeWhile_cons_of_neg (Bool.not_eq_true _ ▸ hrest d rfl), List.append_nil]

theorem dropWhile_append_stop : (text ++ rest).dropWhile p = rest := by
  rw [List.dropWhile_append_of_pos htext]
  cases rest with
  | nil => rfl
  | cons d rest => rw [List.dropWhile_cons_of_neg (Bool.not_eq_true _ ▸ hrest d rfl)]

end Stop

theorem mem_intercalate {c : Char} {sep : List Char} {pieces : List (List Char)}
    (h : c ∈ sep.intercalate pieces) : c ∈ sep ∨ ∃ piece ∈ pieces, c ∈ piece := by
  induction pieces with
  | nil => cases h
  | cons f fs ih =>
    cases fs with
    | nil => exact Or.inr ⟨f, List.mem_cons_self, by simpa using h⟩
    | cons g fs =>
      rw [List.intercalate_cons_cons, List.append_assoc, List.mem_append, List.mem_append] at h
      rcases h with h | h | h
      · exact Or.inr ⟨f, List.mem_cons_self, h⟩
      · exact Or.inl h
      · rcases ih h with hsep | ⟨f', hf', hc⟩
        · exact Or.inl hsep
        · exact Or.inr ⟨f', List.mem_cons_of_mem f hf', hc⟩

/-! ## UTF-8 -/

/-- The bytes of some characters in UTF-8. -/
def encode (cs : List Char) : List UInt8 := cs.flatMap String.utf8EncodeChar

theorem encode_append (xs ys : List Char) : encode (xs ++ ys) = encode xs ++ encode ys :=
  List.flatMap_append

theorem toList_toUTF8 (cs : List Char) : (String.ofList cs).toUTF8.data.toList = encode cs := by
  show (String.ofList cs).toByteArray.data.toList = encode cs
  rw [String.toByteArray_ofList]
  exact List.toList_data_toByteArray

theorem decode?_encode (cs : List Char) : decode? (encode cs) = some (String.ofList cs) := by
  have hbytes : (⟨(encode cs).toArray⟩ : ByteArray) = (String.ofList cs).toByteArray := by
    rw [String.toByteArray_ofList]
    exact ByteArray.ext List.data_toByteArray.symm
  rw [decode?, hbytes, String.fromUTF8?, dif_pos (String.ofList cs).isValidUTF8]
  rfl

/-- A byte below 128 is all there is of its character. -/
theorem utf8EncodeChar_of_mem {c : Char} {b : UInt8} (h : b ∈ String.utf8EncodeChar c)
    (hb : b.toNat < 128) : String.utf8EncodeChar c = [b] ∧ c.toNat = b.toNat := by
  unfold String.utf8EncodeChar at h ⊢
  simp only [Char.toNat] at h ⊢
  by_cases hc : c.val.toNat ≤ 127
  · rw [if_pos hc] at h ⊢
    obtain rfl := List.mem_singleton.1 h
    refine ⟨rfl, ?_⟩
    show c.val.toNat = _
    rw [UInt8.toNat_ofNat', Nat.mod_eq_of_lt (by omega)]
  · -- the lead byte and the bytes behind it are all from 128 on
    rw [if_neg hc] at h
    split at h
    · simp only [List.mem_cons, List.not_mem_nil, or_false] at h
      rcases h with rfl | rfl <;> simp at hb <;> omega
    · split at h
      · simp only [List.mem_cons, List.not_mem_nil, or_false] at h
        rcases h with rfl | rfl | rfl <;> simp at hb <;> omega
      · simp only [List.mem_cons, List.not_mem_nil, or_false] at h
        rcases h with rfl | rfl | rfl | rfl <;> simp at hb <;> omega

theorem eq_of_mem_utf8EncodeChar {a c : Char} {b : UInt8} (h : b ∈ String.utf8EncodeChar c)
    (hb : b.toNat < 128) (ha : a.toNat = b.toNat) : c = a :=
  Char.toNat_inj.1 ((utf8EncodeChar_of_mem h hb).2.trans ha.symm)

theorem newline_notMem_encode {cs : List Char} (h : '\n' ∉ cs) : newline ∉ encode cs := by
  intro hmem
  obtain ⟨c, hc, hb⟩ := List.mem_flatMap.1 hmem
  obtain rfl : c = '\n' := eq_of_mem_utf8EncodeChar hb (by decide) rfl
  exact h hc

/-! ## Carriage returns -/

/-- A line without the carriage return at its end. -/
def withoutReturn (cs : List Char) : List Char :=
  if cs.getLast? = some '\r' then cs.dropLast else cs

theorem withoutReturn_append_return (cs : List Char) : withoutReturn (cs ++ ['\r']) = cs := by
  rw [withoutReturn, if_pos List.getLast?_concat, List.dropLast_concat]

theorem withoutReturn_of_notMem {cs : List Char} (h : '\r' ∉ cs) : withoutReturn cs = cs :=
  if_neg fun hlast => h (List.mem_of_getLast? hlast)

theorem utf8EncodeChar_ne_nil (c : Char) : String.utf8EncodeChar c ≠ [] := by
  intro h
  have hlength := String.length_utf8EncodeChar c
  rw [h, List.length_nil] at hlength
  exact absurd hlength.symm (Nat.ne_of_gt c.utf8Size_pos)

/-- The byte that is dropped is the character that is dropped. -/
theorem dropReturn_encode (cs : List Char) :
    (dropReturn (encode cs).reverse).reverse = encode (withoutReturn cs) := by
  rcases List.eq_nil_or_concat cs with rfl | ⟨xs, c, rfl⟩
  · rfl
  rw [List.concat_eq_append]
  by_cases hc : c = '\r'
  · subst hc
    have hbytes : encode (xs ++ ['\r']) = encode xs ++ [carriageReturn] := encode_append xs ['\r']
    rw [withoutReturn_append_return, hbytes, List.reverse_append, List.reverse_singleton,
      List.singleton_append, dropReturn, if_pos rfl, List.reverse_reverse]
  · have hkeep : withoutReturn (xs ++ [c]) = xs ++ [c] := by
      refine if_neg fun hlast => hc ?_
      rw [List.getLast?_concat] at hlast
      exact Option.some.inj hlast
    have hbytes : encode (xs ++ [c]) = encode xs ++ String.utf8EncodeChar c := by
      rw [encode_append]
      simp [encode]
    rw [hkeep, hbytes, List.reverse_append]
    cases hr : (String.utf8EncodeChar c).reverse with
    | nil => exact absurd (List.reverse_eq_nil_iff.1 hr) (utf8EncodeChar_ne_nil c)
    | cons b bs =>
      have hb : b ∈ String.utf8EncodeChar c := by
        rw [← List.mem_reverse, hr]
        exact List.mem_cons_self
      have hne : b ≠ carriageReturn := by
        rintro rfl
        exact hc (eq_of_mem_utf8EncodeChar hb (by decide) rfl)
      rw [List.cons_append, dropReturn, if_neg hne, ← List.cons_append, ← hr, List.reverse_append,
        List.reverse_reverse, List.reverse_reverse]

/-! ## Cutting -/

theorem cutLines_line {bs : List UInt8} (h : newline ∉ bs) (current rest : List UInt8) :
    cutLines current (bs ++ newline :: rest)
      = (dropReturn (bs.reverse ++ current)).reverse :: cutLines [] rest := by
  induction bs generalizing current with
  | nil => rw [List.nil_append, cutLines, if_pos rfl]; rfl
  | cons b bs ih =>
    obtain ⟨hb, hbs⟩ := not_or.1 (mt List.mem_cons.2 h)
    rw [List.cons_append, cutLines, if_neg (Ne.symm hb), ih hbs, List.reverse_cons,
      List.append_assoc, List.singleton_append]

theorem cutLines_last {bs : List UInt8} (h : newline ∉ bs) (current : List UInt8) :
    cutLines current bs
      = if (bs.reverse ++ current).isEmpty then [] else [(bs.reverse ++ current).reverse] := by
  induction bs generalizing current with
  | nil => rfl
  | cons b bs ih =>
    obtain ⟨hb, hbs⟩ := not_or.1 (mt List.mem_cons.2 h)
    rw [cutLines, if_neg (Ne.symm hb), ih hbs, List.reverse_cons, List.append_assoc,
      List.singleton_append]

/-- How a line ends. -/
inductive LineEnd where
  | newline
  | returnNewline
deriving DecidableEq

/-- The characters of a line end in front of the newline. -/
def LineEnd.returns : LineEnd → List Char
  | newline => []
  | returnNewline => ['\r']

/-- The text of lines with their ends, and of a last line without one. -/
def joinLines (ls : List (List Char × LineEnd)) (last : List Char) : List Char :=
  ls.flatMap (fun l => l.1 ++ l.2.returns ++ ['\n']) ++ last

/-- What is read of a line with its end. -/
def lineRead (l : List Char × LineEnd) : List Char := withoutReturn (l.1 ++ l.2.returns)

theorem lineRead_of_notMem {cs : List Char} (h : '\r' ∉ cs) (e : LineEnd) :
    lineRead (cs, e) = cs := by
  cases e with
  | newline =>
    show withoutReturn (cs ++ []) = cs
    rw [List.append_nil, withoutReturn_of_notMem h]
  | returnNewline => exact withoutReturn_append_return cs

theorem cutLines_joinLines {ls : List (List Char × LineEnd)} {last : List Char}
    (h : ∀ l ∈ ls, '\n' ∉ l.1) (hlast : '\n' ∉ last) :
    cutLines [] (encode (joinLines ls last))
      = (ls.map lineRead ++ if last = [] then [] else [last]).map encode := by
  induction ls with
  | nil =>
    show cutLines [] (encode last) = _
    rw [cutLines_last (newline_notMem_encode hlast)]
    by_cases hempty : last = []
    · subst hempty
      rfl
    · have hbytes : (encode last).reverse ++ [] ≠ [] := by
        rw [List.append_nil]
        intro hnil
        obtain ⟨c, cs, rfl⟩ := List.exists_cons_of_ne_nil hempty
        have := List.append_eq_nil_iff.1 (List.reverse_eq_nil_iff.1 hnil)
        exact utf8EncodeChar_ne_nil c this.1
      rw [if_neg (mt List.isEmpty_iff.1 hbytes), if_neg hempty, List.append_nil,
        List.reverse_reverse]
      rfl
  | cons l ls ih =>
    obtain ⟨hl, hls⟩ := List.forall_mem_cons.1 h
    have htext : encode (joinLines (l :: ls) last)
        = encode (l.1 ++ l.2.returns) ++ newline :: encode (joinLines ls last) := by
      rw [joinLines, List.flatMap_cons, List.append_assoc, List.append_assoc, encode_append]
      rfl
    have hreturns : '\n' ∉ l.1 ++ l.2.returns := by
      rw [List.mem_append, not_or]
      refine ⟨hl, ?_⟩
      cases l.2 <;> decide
    rw [htext, cutLines_line (newline_notMem_encode hreturns), List.append_nil, dropReturn_encode,
      ih hls]
    rfl

/-- **A file that was written line by line is read as these lines.** -/
theorem lines_joinLines {ls : List (List Char × LineEnd)} {last : List Char}
    (h : ∀ l ∈ ls, '\n' ∉ l.1) (hlast : '\n' ∉ last) :
    lines (String.ofList (joinLines ls last)).toUTF8
      = (ls.map lineRead ++ if last = [] then [] else [last]).map fun cs => some (.ofList cs) := by
  rw [lines, toList_toUTF8, cutLines_joinLines h hlast, List.map_map]
  exact List.map_congr_left fun cs _ => decode?_encode cs

end BagQuery.Text
