import BagQuery.Proofs.RecordGrammar

/-!
# Columns as text

A definition is read by splitting it at its last colon and trimming both parts.  The name of a type
has no colon and no blank, so the last colon of a written column is the one in front of its type,
whatever the name holds, and a definition is read as a column exactly if it is its name and its type
with blanks around them (`Column.ofString_eq_ok_iff`).  A name that was read is bare at both ends
(`Text.bare_trim`) and is read again as it is.

`Schema.definitions_reparse` adds what is reported of several definitions: the first that cannot be
read, and otherwise the first name that was used before.
-/

namespace BagQuery

open Attempt

namespace Text

/-! ## Texts without blanks at their ends -/

/-- The text neither starts nor ends with a blank. -/
def Bare (cs : List Char) : Prop :=
  (∀ c, cs.head? = some c → isBlank c = false) ∧ ∀ c, cs.getLast? = some c → isBlank c = false

theorem dropWhile_isBlank_of_head {cs : List Char}
    (h : ∀ c, cs.head? = some c → isBlank c = false) : cs.dropWhile isBlank = cs := by
  cases cs with
  | nil => rfl
  | cons c cs =>
    have hc : ¬isBlank c = true := by
      rw [h c rfl]
      exact Bool.false_ne_true
    exact List.dropWhile_cons_of_neg hc

theorem isBlank_of_head?_dropWhile {cs : List Char} {c : Char}
    (h : (cs.dropWhile isBlank).head? = some c) : isBlank c = false := by
  have hnot := List.head?_dropWhile_not isBlank cs
  rw [h] at hnot
  exact hnot

theorem bare_trim (cs : List Char) : Bare (trim cs) := by
  constructor
  · intro c hc
    rw [head?_trim] at hc
    exact isBlank_of_head?_dropWhile hc
  · intro c hc
    rw [trim, trimEnd, List.getLast?_reverse] at hc
    exact isBlank_of_head?_dropWhile hc

theorem Bare.trim_eq {cs : List Char} (h : Bare cs) : trim cs = cs := by
  rw [trim, trimStart, dropWhile_isBlank_of_head h.1, trimEnd,
    dropWhile_isBlank_of_head (by rw [List.head?_reverse]; exact h.2), List.reverse_reverse]

end Text

open Text

/-! ## Columns -/

namespace Column

theorem splitLastColon_eq_none {cs : List Char} (h : ':' ∉ cs) : splitLastColon cs = none := by
  induction cs with
  | nil => rfl
  | cons c cs ih =>
    obtain ⟨hc, hcs⟩ := not_or.1 (mt List.mem_cons.2 h)
    rw [splitLastColon, ih hcs]
    exact if_neg (Ne.symm hc)

/-- The last colon is the one with no colon behind it. -/
theorem splitLastColon_append (before : List Char) {behind : List Char} (h : ':' ∉ behind) :
    splitLastColon (before ++ ':' :: behind) = some (before, behind) := by
  induction before with
  | nil => rw [List.nil_append, splitLastColon, splitLastColon_eq_none h]; rfl
  | cons c before ih => rw [List.cons_append, splitLastColon, ih]

theorem eq_of_splitLastColon {cs before behind : List Char}
    (h : splitLastColon cs = some (before, behind)) : cs = before ++ ':' :: behind := by
  induction cs generalizing before with
  | nil => cases h
  | cons c cs ih =>
    rw [splitLastColon] at h
    split at h
    · next before' behind' hcs =>
      cases h
      rw [ih hcs, List.cons_append]
    · split at h
      · next hc => cases h; rw [hc, List.nil_append]
      · cases h

theorem colon_notMem_of_trim {cs : List Char} {type : ColumnType}
    (h : trim cs = type.name.toList) : ':' ∉ cs := by
  obtain ⟨before, behind, hcs, hbefore, hbehind⟩ := exists_trim cs
  rw [hcs, h, List.mem_append, List.mem_append]
  rintro ((hcolon | hcolon) | hcolon)
  · exact absurd (hbefore _ hcolon) (by decide)
  · revert hcolon
    cases type <;> decide
  · exact absurd (hbehind _ hcolon) (by decide)

/-- **A definition is read as a column exactly if it is the name and the type of the column with a
colon between them and blanks around them.** -/
theorem ofString_eq_ok_iff {text : String} {c : Column} :
    ofString text = .ok c ↔ ∃ name type, text.toList = name ++ ':' :: type ∧
      trim name = c.name.toList ∧ trim type = c.type.name.toList := by
  constructor
  · intro h
    unfold ofString at h
    split at h
    · cases h
    · next name type hsplit =>
      dsimp only at h
      split at h
      · next found hfound =>
        cases h
        refine ⟨name, type, eq_of_splitLastColon hsplit, ?_, ?_⟩
        · rw [String.toList_ofList]
        · rw [← ColumnType.ofName?_eq_some hfound, String.toList_ofList]
      · cases h
  · rintro ⟨name, type, htext, hname, htype⟩
    unfold ofString
    rw [htext, splitLastColon_append name (colon_notMem_of_trim htype)]
    dsimp only
    rw [htype, String.ofList_toList, ColumnType.ofName?_name, hname, String.ofList_toList]

theorem columnDefinition_of_ofString {text : String} {e : Error} (h : ofString text = .error e) :
    ∃ reason, e = .columnDefinition reason := by
  unfold ofString at h
  split at h
  · cases h
    exact ⟨_, rfl⟩
  · dsimp only at h
    split at h
    · cases h
    · cases h
      exact ⟨_, rfl⟩

/-- **A column whose name has no blanks at its ends is read as it is written.** -/
theorem ofString_render {c : Column} (h : Bare c.name.toList) : ofString c.render = .ok c := by
  refine ofString_eq_ok_iff.2 ⟨c.name.toList, c.type.name.toList, ?_, h.trim_eq, ?_⟩
  · rw [render, String.toList_append, String.toList_append, List.append_assoc]
    rfl
  · cases c.type <;> rfl

theorem bare_of_ofString {text : String} {c : Column} (h : ofString text = .ok c) :
    Bare c.name.toList := by
  obtain ⟨name, type, -, hname, -⟩ := ofString_eq_ok_iff.1 h
  rw [← hname]
  exact bare_trim name

/-- The name is that of the first column, in order, whose name was used before. -/
def FirstRepeated (columns : List Column) (name : String) : Prop :=
  ∃ before c behind, columns = before ++ c :: behind ∧ c.name = name ∧
    (before.map Column.name).Nodup ∧ name ∈ before.map Column.name

theorem exists_of_firstRepeated? {seen : List String} {columns : List Column} {c : Column}
    (h : firstRepeated? seen columns = some c) : ∃ before behind, columns = before ++ c :: behind ∧
      (before.map Column.name).Nodup ∧ (∀ b ∈ before, b.name ∉ seen) ∧
      (c.name ∈ seen ∨ c.name ∈ before.map Column.name) := by
  induction columns generalizing seen with
  | nil => cases h
  | cons d columns ih =>
    rw [firstRepeated?] at h
    split at h
    · next hd =>
      cases h
      exact ⟨[], columns, rfl, List.nodup_nil, List.forall_mem_nil _, Or.inl hd⟩
    · next hd =>
      obtain ⟨before, behind, rfl, hnodup, hunseen, hc⟩ := ih h
      have hfresh : d.name ∉ before.map Column.name := by
        intro hmem
        obtain ⟨b, hb, hname⟩ := List.mem_map.1 hmem
        exact hunseen b hb (List.mem_cons.2 (Or.inl hname))
      refine ⟨d :: before, behind, rfl, List.nodup_cons.2 ⟨hfresh, hnodup⟩,
        List.forall_mem_cons.2 ⟨hd, fun b hb hmem => ?_⟩, ?_⟩
      · exact hunseen b hb (List.mem_cons_of_mem _ hmem)
      · rw [List.map_cons, List.mem_cons]
        rcases hc with hc | hc
        · rcases List.mem_cons.1 hc with hc | hc
          · exact Or.inr (Or.inl hc)
          · exact Or.inl hc
        · exact Or.inr (Or.inr hc)

end Column

/-! ## Schemas -/

namespace Schema

/-- The definitions are read as the columns, one by one. -/
def Defines (definitions : List String) (columns : List Column) : Prop :=
  List.Forall₂ (fun d c => Column.ofString d = .ok c) definitions columns

/-- The error is that of the first definition, in order, that cannot be read. -/
def FirstUnread (definitions : List String) (e : Error) : Prop :=
  ∃ before d behind, definitions = before ++ d :: behind ∧
    (∀ b ∈ before, ∃ c, Column.ofString b = .ok c) ∧ Column.ofString d = .error e

/-- Two of the definitions are read as columns of one name. -/
def Clash (definitions : List String) : Prop :=
  ∃ (i j : Nat) (c c' : Column), i < j ∧ definitions[i]?.map Column.ofString = some (.ok c) ∧
    definitions[j]?.map Column.ofString = some (.ok c') ∧ c.name = c'.name

theorem ofStrings_eq_ok_iff {definitions : List String} {s : Schema} :
    ofStrings definitions = .ok s ↔ Defines definitions s.columns := by
  rw [ofStrings, bind_eq_ok_iff]
  simp only [ofColumns_eq_ok_iff, mapM_eq_ok_iff]
  exact ⟨fun ⟨_, hread, hs⟩ => hs ▸ hread, fun h => ⟨_, h, rfl⟩⟩

theorem firstUnread_of_mapM {definitions : List String} {e : Error}
    (h : definitions.mapM Column.ofString = .error e) : FirstUnread definitions e := by
  induction definitions with
  | nil => cases h
  | cons d definitions ih =>
    rw [List.mapM_cons] at h
    rcases bind_eq_error_iff.1 h with hd | ⟨c, hc, h⟩
    · exact ⟨[], d, definitions, rfl, List.forall_mem_nil _, hd⟩
    · rcases bind_eq_error_iff.1 h with h | ⟨_, _, ⟨⟩⟩
      obtain ⟨before, d', behind, rfl, hbefore, hd'⟩ := ih h
      exact ⟨d :: before, d', behind, rfl, List.forall_mem_cons.2 ⟨⟨c, hc⟩, hbefore⟩, hd'⟩

theorem firstRepeated_of_ofColumns {columns : List Column} {e : Error}
    (h : ofColumns columns = .error e) :
    ∃ name, e = .duplicateColumn name ∧ Column.FirstRepeated columns name := by
  unfold ofColumns at h
  split at h
  · next c hc =>
    cases h
    obtain ⟨before, behind, hcolumns, hnodup, -, hused⟩ := Column.exists_of_firstRepeated? hc
    have hused : c.name ∈ before.map Column.name := hused.resolve_left List.not_mem_nil
    exact ⟨c.name, rfl, before, c, behind, hcolumns, rfl, hnodup, hused⟩
  · cases h

/-- **What is wrong with definitions is the first that cannot be read, or else the first repeated
name.** -/
theorem error_of_ofStrings {definitions : List String} {e : Error}
    (h : ofStrings definitions = .error e) :
    FirstUnread definitions e ∨ ∃ columns name, Defines definitions columns ∧
      Column.FirstRepeated columns name ∧ e = .duplicateColumn name := by
  rcases bind_eq_error_iff.1 h with h | ⟨columns, hread, h⟩
  · exact Or.inl (firstUnread_of_mapM h)
  · obtain ⟨name, he, hrepeated⟩ := firstRepeated_of_ofColumns h
    exact Or.inr ⟨columns, name, mapM_eq_ok_iff.1 hread, hrepeated, he⟩

theorem FirstUnread.columnDefinition {definitions : List String} {e : Error}
    (h : FirstUnread definitions e) : ∃ reason, e = .columnDefinition reason := by
  obtain ⟨-, d, -, -, -, hd⟩ := h
  exact Column.columnDefinition_of_ofString hd

theorem Defines.getElem? {definitions : List String} {columns : List Column}
    (h : Defines definitions columns) {i : Nat} {c : Column}
    (hc : definitions[i]?.map Column.ofString = some (.ok c)) : columns[i]? = some c := by
  induction h generalizing i with
  | nil => cases hc
  | cons hd _ ih =>
    cases i with
    | zero =>
      rw [List.getElem?_cons_zero, Option.map_some, hd] at hc
      cases hc
      rfl
    | succ i => exact ih hc

theorem not_ok_of_clash {definitions : List String} (h : Clash definitions) (s : Schema) :
    ofStrings definitions ≠ .ok s := by
  obtain ⟨i, j, c, c', hij, hi, hj, hname⟩ := h
  intro hok
  have hread := ofStrings_eq_ok_iff.1 hok
  have hnames : (s.columns.map Column.name)[i]? = (s.columns.map Column.name)[j]? := by
    rw [List.getElem?_map, List.getElem?_map, hread.getElem? hi, hread.getElem? hj,
      Option.map_some, Option.map_some, hname]
  have hbound : i < (s.columns.map Column.name).length := by
    rw [List.length_map]
    exact (List.getElem?_eq_some_iff.1 (hread.getElem? hi)).1
  exact Nat.ne_of_lt hij ((List.getElem?_inj hbound s.names_nodup).1 hnames)

/-- **Columns and schemas are read again as they are written.**  A column that was read is read
again from its text, and so is every column whose name has no blanks at its ends, and every schema
of such columns.  Where two definitions give columns of one name, the first definition that cannot
be read is reported, and if all can be read, the first name that was used before. -/
theorem definitions_reparse :
    (∀ text c, Column.ofString text = .ok c → Column.ofString c.render = .ok c) ∧
      (∀ c : Column, Bare c.name.toList → Column.ofString c.render = .ok c) ∧
      (∀ s : Schema, (∀ c ∈ s.columns, Bare c.name.toList) →
        ofStrings (s.columns.map Column.render) = .ok s) ∧
      ∀ definitions, Clash definitions →
        (∃ reason, FirstUnread definitions (.columnDefinition reason) ∧
          ofStrings definitions = .error (.columnDefinition reason)) ∨
        ∃ columns name, Defines definitions columns ∧ Column.FirstRepeated columns name ∧
          ofStrings definitions = .error (.duplicateColumn name) := by
  refine ⟨fun text c h => Column.ofString_render (Column.bare_of_ofString h),
    fun c => Column.ofString_render, fun s hbare => ?_, fun definitions hclash => ?_⟩
  · refine ofStrings_eq_ok_iff.2 (List.forall₂_map_left_iff.2 ?_)
    exact List.forall₂_same.2 fun c hc => Column.ofString_render (hbare c hc)
  · cases hresult : ofStrings definitions with
    | ok s => exact absurd hresult (not_ok_of_clash hclash s)
    | error e =>
      rcases error_of_ofStrings hresult with hunread | ⟨columns, name, hread, hrepeated, rfl⟩
      · obtain ⟨reason, rfl⟩ := hunread.columnDefinition
        exact Or.inl ⟨reason, hunread, rfl⟩
      · exact Or.inr ⟨columns, name, hread, hrepeated, rfl⟩

/-- A name with blanks and a colon inside, a name of nothing, two spellings of one name, and the
same with a definition without a type behind them. -/
theorem definitions_reparse_blanks :
    let c : Column := ⟨"a : b", .int⟩
    let s : Schema := ⟨[⟨"", .string⟩, c], by decide⟩
    let spellings := ["x:int", " x :string"]
    Column.ofString " a : b :\u00a0int\t" = .ok c ∧ Column.ofString c.render = .ok c ∧
      (∀ d ∈ s.columns, Bare d.name.toList) ∧ ofStrings (s.columns.map Column.render) = .ok s ∧
      Clash spellings ∧ ofStrings spellings = .error (.duplicateColumn "x") ∧
      (∃ columns, Defines spellings columns ∧ Column.FirstRepeated columns "x") ∧
      Clash (spellings ++ ["y"]) ∧
      FirstUnread (spellings ++ ["y"]) (.columnDefinition "'y' must be name:type") := by
  intro c s spellings
  obtain ⟨hagain, -, hschema, hclash⟩ := definitions_reparse
  have hread : Column.ofString " a : b :\u00a0int\t" = .ok c := by decide +kernel
  have hbare : ∀ d ∈ s.columns, Bare d.name.toList :=
    List.forall_mem_cons.2 ⟨⟨nofun, nofun⟩,
      List.forall_mem_singleton.2 (Column.bare_of_ofString hread)⟩
  have hfirst : Clash spellings :=
    ⟨0, 1, ⟨"x", .int⟩, ⟨"x", .string⟩, by decide, by decide +kernel, by decide +kernel, rfl⟩
  have hsecond : Clash (spellings ++ ["y"]) :=
    ⟨0, 1, ⟨"x", .int⟩, ⟨"x", .string⟩, by decide, by decide +kernel, by decide +kernel, rfl⟩
  have hrepeated : ofStrings spellings = .error (.duplicateColumn "x") := by decide +kernel
  have hunread : ofStrings (spellings ++ ["y"])
      = .error (.columnDefinition "'y' must be name:type") := by decide +kernel
  refine ⟨hread, hagain _ _ hread, hbare, hschema s hbare, hfirst, hrepeated, ?_, hsecond, ?_⟩
  · rcases hclash _ hfirst with ⟨_, -, h⟩ | ⟨columns, name, hcolumns, hname, h⟩
    · cases hrepeated.symm.trans h
    · cases hrepeated.symm.trans h
      exact ⟨columns, hcolumns, hname⟩
  · rcases hclash _ hsecond with ⟨reason, h, hreason⟩ | ⟨_, _, -, -, h⟩
    · cases hunread.symm.trans hreason
      exact h
    · cases hunread.symm.trans h

end Schema

end BagQuery
