import BagQuery.Proofs.ExpressionTyping
import BagQuery.Proofs.TokenReading
import Mathlib.Data.List.TakeWhile

/-!
# The columns of a join

A join puts the columns of both sides in a row, each under the label of its side and a period.
Labels are names of a program and have no periods (`period_notMem_of_word`), so the label of a
column is what stands in front of its first period, however many there are in the name behind it
(`label_inj`).  Columns of sides with different labels are therefore never confused, and a column
of either side is found where it stands (`Schema.join_keeps_sides_apart`).
-/

namespace BagQuery

/-! ## Labels -/

/-- What stands in front of the first period, and what behind it. -/
theorem append_period_inj {xs ys zs ws : List Char} (hx : '.' ∉ xs) (hy : '.' ∉ ys)
    (h : xs ++ '.' :: zs = ys ++ '.' :: ws) : xs = ys ∧ zs = ws := by
  induction xs generalizing ys with
  | nil =>
    cases ys with
    | nil => exact ⟨rfl, (List.cons.inj h).2⟩
    | cons y ys =>
      obtain rfl : '.' = y := (List.cons.inj h).1
      exact absurd List.mem_cons_self hy
  | cons x xs ih =>
    cases ys with
    | nil =>
      obtain rfl : x = '.' := (List.cons.inj h).1
      exact absurd List.mem_cons_self hx
    | cons y ys =>
      obtain ⟨rfl, hrest⟩ := List.cons.inj h
      have hx' : '.' ∉ xs := fun hmem => hx (List.mem_cons_of_mem _ hmem)
      have hy' : '.' ∉ ys := fun hmem => hy (List.mem_cons_of_mem _ hmem)
      obtain ⟨rfl, hzs⟩ := ih hx' hy' hrest
      exact ⟨rfl, hzs⟩

/-- **A label and a name can be told from the name under the label.** -/
theorem label_inj {p q x y : String} (hp : '.' ∉ p.toList) (hq : '.' ∉ q.toList)
    (h : p ++ "." ++ x = q ++ "." ++ y) : p = q ∧ x = y := by
  have hlist : p.toList ++ '.' :: x.toList = q.toList ++ '.' :: y.toList := by
    simpa using congrArg String.toList h
  obtain ⟨hlabels, hnames⟩ := append_period_inj hp hq hlist
  exact ⟨String.toList_inj.1 hlabels, String.toList_inj.1 hnames⟩

namespace Lexer

open Text

theorem number_ne_word {place : Position} {text : List Char} {word : String} :
    number place text ≠ .ok (.word word) := by
  unfold number
  split <;> exact nofun

/-- A word consists of letters, digits and underscores. -/
theorem isWordPart_of_mem_word {place : Position} {c d : Char} {cs : List Char} {word : String}
    {next : Cursor} (h : token place c cs = .ok (.word word, next)) (hd : d ∈ word.toList) :
    isWordPart d = true := by
  unfold token at h
  split at h
  · cases h
  split at h
  · obtain ⟨_, -, heq⟩ := map_eq_ok.1 h
    cases heq
  split at h
  · dsimp only at h
    split at h
    · cases h
    · obtain ⟨_, hnumber, heq⟩ := map_eq_ok.1 h
      cases heq
      exact absurd hnumber number_ne_word
  split at h
  · obtain ⟨_, hnumber, heq⟩ := map_eq_ok.1 h
    cases heq
    exact absurd hnumber number_ne_word
  split at h
  · next hstart =>
    cases h
    rw [String.toList_ofList] at hd
    rcases List.mem_cons.1 hd with rfl | hd
    · exact isWordPart_of_isWordStart hstart
    · exact List.mem_takeWhile_imp hd
  · cases h

theorem period_notMem_of_word {start : Cursor} {source : Lexed} {word : String}
    (h : lexFrom start = .ok source) (hword : .word word ∈ source.tokens) :
    '.' ∉ word.toList := by
  fun_induction lexFrom start generalizing source with
  | case1 start place hskip =>
    cases h
    cases hword
  | case2 start place c cs hskip refusal htoken => cases h
  | case3 start place c cs hskip t next htoken ih =>
    obtain ⟨more, hmore, rfl⟩ := map_eq_ok.1 h
    rcases List.mem_cons.1 hword with rfl | hword
    · intro hperiod
      exact absurd (isWordPart_of_mem_word htoken hperiod) (by decide)
    · exact ih hmore hword

end Lexer

namespace Schema

variable {a b s : Schema} {p q : String}

/-! ## Columns under labels -/

theorem names_labelled (s : Schema) (label : String) :
    (s.labelled label).map Column.name = (s.columns.map Column.name).map (label ++ "." ++ ·) := by
  rw [labelled, List.map_map, List.map_map]
  rfl

theorem nodup_labelled (s : Schema) {label : String} (hlabel : '.' ∉ label.toList) :
    ((s.labelled label).map Column.name).Nodup := by
  rw [names_labelled]
  exact s.names_nodup.map fun x y h => (label_inj hlabel hlabel h).2

/-- **Columns clash only under one label and one name.** -/
theorem nodup_labelled_iff (hp : '.' ∉ p.toList) (hq : '.' ∉ q.toList) :
    ((a.labelled p ++ b.labelled q).map Column.name).Nodup ↔
      (p = q → ∀ c ∈ a.columns, ∀ d ∈ b.columns, c.name ≠ d.name) := by
  rw [List.map_append, List.nodup_append]
  constructor
  · rintro ⟨-, -, hdisjoint⟩ rfl c hc d hd hname
    refine hdisjoint (p ++ "." ++ c.name) ?_ (p ++ "." ++ d.name) ?_ (by rw [hname])
    · rw [names_labelled]
      exact List.mem_map_of_mem (List.mem_map_of_mem hc)
    · rw [names_labelled]
      exact List.mem_map_of_mem (List.mem_map_of_mem hd)
  · intro h
    refine ⟨nodup_labelled a hp, nodup_labelled b hq, ?_⟩
    rw [names_labelled, names_labelled, List.map_map, List.map_map, List.forall_mem_map]
    intro c hc
    rw [List.forall_mem_map]
    intro d hd hname
    obtain ⟨hlabels, hnames⟩ := label_inj hp hq hname
    exact h hlabels c hc d hd hnames

theorem exists_duplicateColumn_iff {columns : List Column} :
    (∃ name, ofColumns columns = .error (.duplicateColumn name)) ↔
      ¬(columns.map Column.name).Nodup := by
  have hrepeated : Column.firstRepeated? [] columns = none ↔
      (columns.map Column.name).Nodup ∧ ∀ c ∈ columns, c.name ∉ [] :=
    Column.firstRepeated?_eq_none_iff
  unfold ofColumns
  split
  · next c hc =>
    rw [hc] at hrepeated
    exact iff_of_true ⟨c.name, rfl⟩ fun hnodup => nomatch hrepeated.2 ⟨hnodup, by simp⟩
  · next hc =>
    refine iff_of_false ?_ (not_not_intro (hrepeated.1 hc).1)
    rintro ⟨_, h⟩
    cases h

/-- The columns of a join by their places: those of the left side, then those of the right one. -/
theorem getElem?_joined (hs : s.columns = a.labelled p ++ b.labelled q) {i : Nat} {c : Column} :
    s.columns[i]? = some c ↔
      (∃ d, a.columns[i]? = some d ∧ c = ⟨p ++ "." ++ d.name, d.type⟩) ∨
        ∃ j d, i = a.arity + j ∧ b.columns[j]? = some d ∧ c = ⟨q ++ "." ++ d.name, d.type⟩ := by
  rcases Nat.lt_or_ge i a.arity with hi | hi
  · rw [getElem?_left hs hi, getElem?_labelled, Option.map_eq_some_iff]
    constructor
    · rintro ⟨d, hd, rfl⟩
      exact Or.inl ⟨d, hd, rfl⟩
    · rintro (⟨d, hd, rfl⟩ | ⟨j, d, rfl, -, -⟩)
      · exact ⟨d, hd, rfl⟩
      · omega
  · obtain ⟨j, rfl⟩ := Nat.exists_eq_add_of_le hi
    rw [getElem?_right hs, getElem?_labelled, Option.map_eq_some_iff]
    constructor
    · rintro ⟨d, hd, rfl⟩
      exact Or.inr ⟨j, d, rfl, hd, rfl⟩
    · rintro (⟨d, hd, rfl⟩ | ⟨j', d, hj, hd, rfl⟩)
      · have hout : a.columns[a.arity + j]? = none := List.getElem?_eq_none_iff.2 hi
        rw [hout] at hd
        cases hd
      · obtain rfl : j = j' := by omega
        exact ⟨d, hd, rfl⟩

/-- **Under the left label a name is found where the left side has it.** -/
theorem index_left_iff (hs : s.columns = a.labelled p ++ b.labelled q) (hp : '.' ∉ p.toList)
    (hq : '.' ∉ q.toList) (hpq : p ≠ q) {name : String} {i : Nat} :
    s.index (p ++ "." ++ name) = .ok i ↔ a.index name = .ok i := by
  simp only [index_eq_ok_iff, getElem?_joined hs]
  constructor
  · rintro ⟨_, ⟨d, hd, rfl⟩ | ⟨j, d, -, -, rfl⟩, hname⟩
    · exact ⟨d, hd, (label_inj hp hp hname).2⟩
    · exact absurd (label_inj hq hp hname).1.symm hpq
  · rintro ⟨d, hd, rfl⟩
    exact ⟨_, Or.inl ⟨d, hd, rfl⟩, rfl⟩

/-- **Under the right label it is found behind all columns of the left side.** -/
theorem index_right_iff (hs : s.columns = a.labelled p ++ b.labelled q) (hp : '.' ∉ p.toList)
    (hq : '.' ∉ q.toList) (hpq : p ≠ q) {name : String} {i : Nat} :
    s.index (q ++ "." ++ name) = .ok i ↔ ∃ j, b.index name = .ok j ∧ i = a.arity + j := by
  simp only [index_eq_ok_iff, getElem?_joined hs]
  constructor
  · rintro ⟨_, ⟨d, -, rfl⟩ | ⟨j, d, rfl, hd, rfl⟩, hname⟩
    · exact absurd (label_inj hp hq hname).1 hpq
    · exact ⟨j, ⟨d, hd, (label_inj hq hq hname).2⟩, rfl⟩
  · rintro ⟨j, ⟨d, hd, rfl⟩, rfl⟩
    exact ⟨_, Or.inr ⟨j, d, rfl, hd, rfl⟩, rfl⟩

/-! ## Sides -/

/-- **The columns of a join keep their sides apart.**  Names of a program have no periods.  Under
different names without periods, a join has the columns of its left side and then those of its
right side, and a name under the label of a side is found where that side has it, if it has.  Under
one label, columns of one name clash, and nothing else does. -/
theorem join_keeps_sides_apart :
    (∀ text source, lex text = .ok source → ∀ name, .word name ∈ source.tokens →
      '.' ∉ name.toList) ∧
    ∀ (a b : Schema) (p q : String), '.' ∉ p.toList → '.' ∉ q.toList →
      (p ≠ q → ∃ s, Schema.join [a, b] [p, q] = .ok s ∧ s.arity = a.arity + b.arity ∧
        s.types = a.types ++ b.types ∧ ∀ name i,
          (s.index (p ++ "." ++ name) = .ok i ↔ a.index name = .ok i) ∧
          (s.index (q ++ "." ++ name) = .ok i ↔ ∃ j, b.index name = .ok j ∧ i = a.arity + j)) ∧
      (p = q →
        ((∃ name, Schema.join [a, b] [p, q] = .error (.duplicateColumn name)) ↔
          ∃ c ∈ a.columns, ∃ d ∈ b.columns, c.name = d.name)) := by
  refine ⟨fun text source hlex name hname => Lexer.period_notMem_of_word hlex hname, ?_⟩
  intro a b p q hp hq
  constructor
  · intro hpq
    obtain ⟨s, hs⟩ : ∃ s, Schema.join [a, b] [p, q] = .ok s :=
      ⟨⟨_, (nodup_labelled_iff hp hq).2 fun h => absurd h hpq⟩, Query.columns_of_join.2 rfl⟩
    have hcolumns := Query.columns_of_join.1 hs
    refine ⟨s, hs, ?_, Query.types_of_join hs, fun name i =>
      ⟨index_left_iff hcolumns hp hq hpq, index_right_iff hcolumns hp hq hpq⟩⟩
    have htypes := congrArg List.length (Query.types_of_join hs)
    simpa [types, arity] using htypes
  · intro hpq
    have hjoin : Schema.join [a, b] [p, q] = ofColumns (a.labelled p ++ b.labelled q) := by
      simp [Schema.join]
    rw [hjoin, exists_duplicateColumn_iff, nodup_labelled_iff hp hq]
    simp [hpq]

/-- Two columns, of which one looks as if it had come from a join with the right side. -/
def nested : Schema := ⟨[⟨"B.x", .string⟩, ⟨"x", .int⟩], by decide⟩

/-- One column. -/
def single : Schema := ⟨[⟨"x", .string⟩], by decide⟩

theorem join_keeps_sides_apart_nested :
    lex "A.B" = .ok ⟨[⟨.word "A", ⟨1, 1⟩⟩, ⟨.mark .period, ⟨1, 2⟩⟩, ⟨.word "B", ⟨1, 3⟩⟩], ⟨1, 4⟩⟩ ∧
      '.' ∉ "A".toList ∧ '.' ∉ "B".toList ∧ "A" ≠ "B" ∧
      (∃ s, Schema.join [nested, single] ["A", "B"] = .ok s ∧ s.arity = 3 ∧
        s.types = [.string, .int, .string] ∧ s.index "A.B.x" = .ok 0 ∧ s.index "A.x" = .ok 1 ∧
        s.index "B.x" = .ok 2) ∧
      ∃ name, Schema.join [nested, single] ["A", "A"] = .error (.duplicateColumn name) := by
  obtain ⟨hwords, hjoins⟩ := join_keeps_sides_apart
  have hlex : lex "A.B" = .ok ⟨[⟨.word "A", ⟨1, 1⟩⟩, ⟨.mark .period, ⟨1, 2⟩⟩,
      ⟨.word "B", ⟨1, 3⟩⟩], ⟨1, 4⟩⟩ := by decide +kernel
  have hA : '.' ∉ "A".toList := hwords _ _ hlex "A" (by decide)
  have hB : '.' ∉ "B".toList := hwords _ _ hlex "B" (by decide)
  have hAB : "A" ≠ "B" := by decide
  obtain ⟨s, hs, harity, htypes, hindex⟩ := (hjoins nested single "A" "B" hA hB).1 hAB
  refine ⟨hlex, hA, hB, hAB, ⟨s, hs, harity, htypes, ?_, ?_, ?_⟩, ?_⟩
  · exact (hindex "B.x" 0).1.2 (by decide +kernel)
  · exact (hindex "x" 1).1.2 (by decide +kernel)
  · exact (hindex "x" 2).2.2 ⟨0, by decide +kernel, rfl⟩
  · refine ((hjoins nested single "A" "A" hA hA).2 rfl).2 ?_
    exact ⟨⟨"x", .int⟩, by decide, ⟨"x", .string⟩, by decide, rfl⟩

end Schema

end BagQuery
