import BagQuery.Proofs.TextLines
import BagQuery.Proofs.TokenLayout
import Mathlib.Data.List.TakeWhile

/-!
# Lines and their numbers

`IsLine stop before line after` says that `line` is a whole line of the text `before ++ line ++
after`, in which every `stop` ends a line.  As many lines stand in front of it as there are stops in
`before`, which is what its number counts.

* `exists_isLine`: a place in a text is in a line, and within it.
* `exists_isLine_of_cutLines`: what is cut from a file is what is read of its lines, in order.
-/

namespace BagQuery.Text

/-- A line of a text, from the start of the text or the end of the line in front of it to its own
end or that of the text. -/
structure IsLine {α : Type} (stop : α) (before line after : List α) : Prop where
  starts : before = [] ∨ before.getLast? = some stop
  whole : stop ∉ line
  ends : after = [] ∨ after.head? = some stop

/-! ## Places in a text -/

theorem newline_notMem_takeWhile (cs : List Char) : '\n' ∉ cs.takeWhile (· ≠ '\n') := by
  intro h
  simpa using List.mem_takeWhile_imp h

theorem head?_dropWhile_newline (cs : List Char) :
    cs.dropWhile (· ≠ '\n') = [] ∨ (cs.dropWhile (· ≠ '\n')).head? = some '\n' := by
  have h := List.head?_dropWhile_not (· ≠ '\n') cs
  cases hcs : cs.dropWhile (· ≠ '\n') with
  | nil => exact Or.inl rfl
  | cons c rest =>
    rw [hcs] at h
    exact Or.inr (congrArg some (by simpa using h))

/-- Whatever stands in front of a place, the place is in the line that starts behind the last
newline of it, and not behind the end of that line. -/
theorem exists_isLine (front rest : List Char) :
    ∃ before line after, front ++ rest = before ++ line ++ after ∧ IsLine '\n' before line after ∧
      before.count '\n' = front.count '\n' ∧
      (front.reverse.takeWhile (· ≠ '\n')).length ≤ line.length := by
  let opened := (front.reverse.takeWhile (· ≠ '\n')).reverse
  let before := (front.reverse.dropWhile (· ≠ '\n')).reverse
  have hfront : front = before ++ opened := by
    rw [← List.reverse_append, List.takeWhile_append_dropWhile, List.reverse_reverse]
  have hopened : '\n' ∉ opened := mt List.mem_reverse.1 (newline_notMem_takeWhile _)
  refine ⟨before, opened ++ rest.takeWhile (· ≠ '\n'), rest.dropWhile (· ≠ '\n'), ?_, ⟨?_, ?_, ?_⟩,
    ?_, ?_⟩
  · rw [List.append_assoc, List.append_assoc, List.takeWhile_append_dropWhile, ← List.append_assoc,
      ← hfront]
  · rw [List.reverse_eq_nil_iff, List.getLast?_reverse]
    exact head?_dropWhile_newline _
  · exact mt List.mem_append.1 (not_or.2 ⟨hopened, newline_notMem_takeWhile rest⟩)
  · exact head?_dropWhile_newline rest
  · rw [hfront, List.count_append, List.count_eq_zero.2 hopened, Nat.add_zero]
  · rw [List.length_append, List.length_reverse]
    exact Nat.le_add_right _ _

/-! ## Lines of a file -/

/-- The bytes that are read of a line: without the carriage return in front of its newline. -/
def bytesRead (line after : List UInt8) : List UInt8 :=
  if after = [] then line else (dropReturn line.reverse).reverse

/-- Bytes without a newline are one line, or none. -/
theorem cutLines_of_notMem {bs : List UInt8} (h : newline ∉ bs) :
    cutLines [] bs = if bs = [] then [] else [bs] := by
  rw [cutLines_last h, List.append_nil, List.reverse_reverse]
  by_cases hempty : bs = []
  · rw [hempty]
    rfl
  · rw [if_neg hempty, if_neg (mt (fun h => by simpa using h) hempty)]

/-- **What is cut from a file is what is read of its lines.**  The line with some number stands
behind that many newlines, and what stands in front of it is cut as it is without it. -/
theorem exists_isLine_of_cutLines {bs l : List UInt8} {ls more : List (List UInt8)}
    (h : cutLines [] bs = ls ++ l :: more) :
    ∃ before line after, bs = before ++ line ++ after ∧ IsLine newline before line after ∧
      before.count newline = ls.length ∧ cutLines [] before = ls ∧ l = bytesRead line after := by
  induction ls generalizing bs with
  | nil =>
    by_cases hnewline : newline ∈ bs
    · obtain ⟨line, rest, rfl, hline⟩ := List.eq_append_cons_of_mem hnewline
      rw [cutLines_line hline, List.append_nil] at h
      obtain ⟨rfl, -⟩ := List.cons.inj h
      exact ⟨[], line, newline :: rest, rfl, ⟨Or.inl rfl, hline, Or.inr rfl⟩, rfl, rfl,
        (if_neg (List.cons_ne_nil _ _)).symm⟩
    · rw [cutLines_of_notMem hnewline] at h
      split at h
      · cases h
      · obtain ⟨rfl, -⟩ := List.cons.inj h
        exact ⟨[], bs, [], (List.append_nil bs).symm, ⟨Or.inl rfl, hnewline, Or.inl rfl⟩, rfl, rfl,
          rfl⟩
  | cons first ls ih =>
    have hnewline : newline ∈ bs := by
      by_contra hnewline
      have hone : (cutLines [] bs).length ≤ 1 := by
        rw [cutLines_of_notMem hnewline]
        split <;> simp
      rw [h] at hone
      simp at hone
    obtain ⟨line₀, rest, rfl, hline₀⟩ := List.eq_append_cons_of_mem hnewline
    rw [cutLines_line hline₀, List.append_nil] at h
    obtain ⟨rfl, hrest⟩ := List.cons.inj h
    obtain ⟨before, line, after, rfl, hline, hcount, hbefore, hl⟩ := ih hrest
    refine ⟨line₀ ++ newline :: before, line, after, by simp, ⟨?_, hline.whole, hline.ends⟩, ?_,
      ?_, hl⟩
    · -- the line starts behind the newline of the first one, or behind a later one
      rw [List.getLast?_append, List.getLast?_cons]
      rcases hline.starts with rfl | hlast
      · exact Or.inr rfl
      · rw [hlast]
        exact Or.inr rfl
    · rw [List.count_append, List.count_eq_zero.2 hline₀, List.count_cons_self, hcount,
        List.length_cons, Nat.zero_add]
    · rw [cutLines_line hline₀, List.append_nil, hbefore]

end BagQuery.Text
