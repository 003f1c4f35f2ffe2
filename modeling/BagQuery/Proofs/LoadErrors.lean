import BagQuery.Proofs.DecimalText
import BagQuery.Proofs.NumberedLines
import BagQuery.Proofs.QueryFaults

/-!
# The lines that load errors name

A load numbers the lines of its file as it reads them, and an error of a line names its number.
`FailsAt` says which line of the file that is: the call with number `n` comes to the line behind `n`
others that were an answer, and the line holds a record that cannot be converted.

Blank lines and comments are numbered, and so are records that could not be converted.  A line that
is not text is read without being numbered, so the number that an error names falls behind by one
for every such line in front (`load_names_lines`).
-/

namespace BagQuery

open Text
open BagQuery.Stream (answersCall isSkipped)

/-- The line behind `before` is the one for the call with number `n`, and it is no record of the
schema, for the reason `problem`. -/
structure FailsAt (schema : Schema) (before line after : List UInt8) (n : Nat) (problem : String) :
    Prop where
  isLine : IsLine newline before line after
  turn : (lines ⟨before.toArray⟩).countP answersCall = n
  isText : ∃ text, decode? (bytesRead line after) = some text ∧ isSkipped text = false ∧
    Record.read schema text = .error (.tupleType problem)

/-- What is wrong with a line, behind its number. -/
def atNumber (path : String) (number : Nat) (problem : String) : String :=
  path ++ ":" ++ Numeral.ofNat number ++ ": " ++ problem

theorem atNumber_inj {path problem : String} {m n : Nat}
    (h : atNumber path m problem = atNumber path n problem) : m = n := by
  simp only [atNumber, Numeral.ofNat, String.append_left_inj, String.append_right_inj,
    String.ofList_inj] at h
  exact Numeral.digits_inj h

/-- The lines in front of a line are those that are read of the bytes in front of it. -/
theorem exists_isLine_of_lines {bytes : ByteArray} {text : String}
    {ls more : List (Option String)} (h : lines bytes = ls ++ some text :: more) :
    ∃ before line after, bytes.data.toList = before ++ line ++ after ∧
      IsLine newline before line after ∧ before.count newline = ls.length ∧
      lines ⟨before.toArray⟩ = ls ∧ decode? (bytesRead line after) = some text := by
  obtain ⟨front, back, hcut, rfl, hback⟩ := List.map_eq_append_iff.1 h
  obtain ⟨l, rest, rfl, htext, -⟩ := List.map_eq_cons_iff.1 hback
  obtain ⟨before, line, after, hbytes, hline, hcount, hbefore, rfl⟩ :=
    exists_isLine_of_cutLines hcut
  refine ⟨before, line, after, hbytes, hline, ?_, ?_, htext⟩
  · rw [hcount, List.length_map]
  · rw [lines, hbefore]

/-- Lines are text or not. -/
theorem countP_isSome_add_count_none (ls : List (Option String)) :
    ls.countP Option.isSome + ls.count none = ls.length := by
  rw [List.length_eq_countP_add_countP Option.isSome, List.count_eq_countP]
  congr 2
  funext l
  cases l <;> rfl

/-- **The lines that load errors name.**  Whenever a call, be it after a failure, is answered with
an error of a tuple, the line for the call could not be converted.  The error names the number that
the line has without the lines in front of it that are not text; so it names the number of the line
where all of these are text, and only there. -/
theorem load_names_lines {env : Environment} {path : String} {bytes : ByteArray}
    (hfile : env.files (env.locate path) = .content bytes) (db : Database) (schema : Schema) :
    ∃ stream : Stream, (db.evaluate env (.query (.load path schema))).1 = .ok ⟨schema, stream⟩ ∧
      ∀ n reason, stream.answer n = some (.error (.tupleType reason)) →
        ∃ before line after problem, bytes.data.toList = before ++ line ++ after ∧
          FailsAt schema before line after n problem ∧
          reason = atNumber (env.locate path)
            (1 + before.count newline - (lines ⟨before.toArray⟩).count none) problem ∧
          (reason = atNumber (env.locate path) (1 + before.count newline) problem ↔
            none ∉ lines ⟨before.toArray⟩) := by
  refine ⟨_, Query.evaluate_load hfile db schema, fun n reason h => ?_⟩
  have hregular : (Stream.load (env.locate path) schema 0 (lines bytes)).Regular := trivial
  rw [Stream.answer_eq_getElem? hregular] at h
  obtain ⟨ls, first, more, hlines, hturn, hfault⟩ := Stream.lineFault_of_lineItems h
  generalize herror : Error.tupleType reason = e at hfault
  cases hfault with
  | notText => cases herror
  | @record text problem hskipped hread =>
    obtain ⟨before, line, after, hbytes, hline, hcount, rfl, htext⟩ := exists_isLine_of_lines hlines
    have hnumber := countP_isSome_add_count_none (lines ⟨before.toArray⟩)
    have hreason : reason = atNumber (env.locate path)
        (1 + before.count newline - (lines ⟨before.toArray⟩).count none) problem := by
      rw [hcount, show 1 + (lines ⟨before.toArray⟩).length - (lines ⟨before.toArray⟩).count none
        = 0 + (lines ⟨before.toArray⟩).countP Option.isSome + 1 by omega]
      exact Error.tupleType.inj herror
    refine ⟨before, line, after, problem, hbytes, ⟨hline, hturn, text, htext, hskipped, hread⟩,
      hreason, ?_⟩
    rw [← List.count_eq_zero]
    constructor
    · intro heq
      have := atNumber_inj (hreason.symm.trans heq)
      omega
    · intro hnone
      rw [hreason, hnone, Nat.sub_zero]

/-! ### A file with bad lines -/

open Query (numbers spoiltFile)

/-- The third line of the file is named by its number: the one behind it is not text, but none in
front of it. -/
theorem load_names_lines_spoiltFile :
    spoiltFile.files (spoiltFile.locate "f")
        = .content ⟨#[49, 10, 35, 10, 120, 10, 255, 10, 50, 10]⟩ ∧
      ∃ stream : Stream,
        (Database.fresh.evaluate spoiltFile (.query (.load "f" numbers))).1
          = .ok ⟨numbers, stream⟩ ∧
        stream.answer 1
          = some (.error (.tupleType "f:3: 'x' is not a valid int for column 'n'")) ∧
        ∃ before line after problem,
          [49, 10, 35, 10, 120, 10, 255, 10, 50, 10] = before ++ line ++ after ∧
          FailsAt numbers before line after 1 problem ∧
          "f:3: 'x' is not a valid int for column 'n'" = atNumber "f"
            (1 + before.count newline - (lines ⟨before.toArray⟩).count none) problem := by
  have hfile : spoiltFile.files (spoiltFile.locate "f")
      = .content ⟨#[49, 10, 35, 10, 120, 10, 255, 10, 50, 10]⟩ := rfl
  obtain ⟨stream, hstream, hanswers⟩ := load_names_lines hfile Database.fresh numbers
  have hanswer : stream.answer 1
      = some (.error (.tupleType "f:3: 'x' is not a valid int for column 'n'")) := by
    rw [Query.evaluate_load hfile] at hstream
    cases hstream
    decide +kernel
  obtain ⟨before, line, after, problem, hbytes, hfails, hreason, -⟩ := hanswers 1 _ hanswer
  exact ⟨hfile, stream, hstream, hanswer, before, line, after, problem, hbytes, hfails, hreason⟩

/-- A single file `f` with a line that is not text, and the line `x`. -/
def brokenStart : Environment where
  files path :=
    if path = "f" then .content ⟨#[255, 10, 120, 10]⟩ else .refused FileFault.notFound.reason
  dataDir := none

/-- The second line of the file is named as the first one, since the first one is not text. -/
theorem load_misnames_brokenStart :
    ∃ stream : Stream,
      (Database.fresh.evaluate brokenStart (.query (.load "f" numbers))).1
        = .ok ⟨numbers, stream⟩ ∧
      stream.answer 1
        = some (.error (.tupleType (atNumber "f" 1 "'x' is not a valid int for column 'n'"))) ∧
      FailsAt numbers [255, 10] [120] [10] 1 "'x' is not a valid int for column 'n'" ∧
      1 + [255, 10].count newline = 2 := by
  have hfile : brokenStart.files (brokenStart.locate "f") = .content ⟨#[255, 10, 120, 10]⟩ := rfl
  refine ⟨_, Query.evaluate_load hfile Database.fresh numbers, by decide +kernel, ?_, rfl⟩
  exact ⟨⟨.inr rfl, by decide, .inr rfl⟩, by decide +kernel, "x", by decide +kernel,
    by decide +kernel, by decide +kernel⟩

end BagQuery
