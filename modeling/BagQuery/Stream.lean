import BagQuery.File
import BagQuery.Relation.Record
import BagQuery.Text.Lines

/-!
# Streams

A stream hands out the tuples of a query one at a time, and works only when it is asked.  It is a
tree of small machines, one per operator, and its state is plain data.

* `step` makes one move: it hands out an item, finds itself at the end, or only gets on.
* `next` moves until there is an item or the end.  This ends because every move that is not a
  failure uses something up (`budget_lt_of_step`).
* `drain` takes all that is left, up to the first failure.
* `rewind` starts a stream again where all its sources can be read again (`pass`).

A failure is an item like any other: a stream can be asked on after it.
-/

namespace BagQuery

open Text

/-- Whether a stream can be read again. -/
inductive Pass where
  | single
  | restartable
deriving DecidableEq, Repr

/-- The pass of two sources read one behind the other. -/
def Pass.both : Pass → Pass → Pass
  | restartable, restartable => restartable
  | _, _ => single

/-- A machine that hands out tuples. -/
inductive Stream where
  /-- The lines of a file that are left, behind `lineNumber` lines; `none` is a line that is not
  text. -/
  | load (path : String) (schema : Schema) (lineNumber : Nat) (left : List (Option String))
  /-- Something that was opened as a file but cannot be read. -/
  | unreadable (fault : Error)
  /-- The rows that are left of all rows. -/
  | rows (all left : List Tuple)
  /-- What is left of a snapshot of a stored relation. -/
  | scan (left : List Tuple)
  /-- The pairs with the tuples of `right`; `current` is the left tuple in work with the right
  tuples that it still has to meet. -/
  | join (left : Stream) (right : List Tuple) (on : List (Nat × Nat))
      (current : Option (Tuple × List Tuple))
  /-- Some columns of each tuple. -/
  | foreach (input : Stream) (columns : List Nat)
  /-- One input behind the other. -/
  | union (first second : Stream) (onSecond : Bool)
  /-- Each tuple once; `seen` holds those handed out. -/
  | distinct (input : Stream) (seen : List Tuple)
  /-- The first `count` tuples, of which `emitted` were handed out. -/
  | limit (input : Stream) (count emitted : Nat)
deriving DecidableEq

namespace Stream

/-- A tuple or a failure. -/
abbrev Item := Except Error Tuple

/-- What a move brings. -/
inductive Move where
  /-- Something to hand out. -/
  | item (item : Item)
  /-- Nothing yet. -/
  | on
  /-- Nothing more. -/
  | done

/-! ## Moves -/

/-- The line holds no record: it is blank, or a comment. -/
def isSkipped (line : String) : Bool :=
  match trim line.toList with
  | [] => true
  | c :: _ => c == '#'

/-- Puts the place of a line in front of what is wrong with it. -/
def atLine (path : String) (lineNumber : Nat) : Error → Error
  | .tupleType reason =>
    .tupleType (path ++ ":" ++ Numeral.ofNat lineNumber ++ ": " ++ reason)
  | e => e

/-- The first record among some lines, the number of lines up to it and the lines behind it.  A
line that is not text has no number. -/
def nextRecord (path : String) (schema : Schema) :
    (lineNumber : Nat) → List (Option String) → Move × Nat × List (Option String)
  | lineNumber, [] => (.done, lineNumber, [])
  | lineNumber, none :: left =>
    (.item (.error (.load path FileFault.notText.reason)), lineNumber, left)
  | lineNumber, some line :: left =>
    if isSkipped line then nextRecord path schema (lineNumber + 1) left
    else (.item ((Record.read schema line).mapError (atLine path (lineNumber + 1))),
      lineNumber + 1, left)

/-- Takes the first of some tuples. -/
def takeFirst : List Tuple → Move × List Tuple
  | [] => (.done, [])
  | t :: left => (.item (.ok t), left)

/-- The tuple agrees with itself on the pairs of columns. -/
def agrees (on : List (Nat × Nat)) (t : Tuple) : Bool :=
  on.all fun (l, r) => (t.get? l).isSome && t.get? l == t.get? r

/-- Looks for the first tuple of the right side that goes with `t`. -/
def nextPair (on : List (Nat × Nat)) (t : Tuple) : List Tuple → Option (Tuple × List Tuple)
  | [] => none
  | r :: left =>
    let pair := t.append r
    if agrees on pair then some (pair, left) else nextPair on t left

/-- One move of a stream. -/
def step : Stream → Move × Stream
  | load path schema lineNumber left =>
    let (move, lineNumber, left) := nextRecord path schema lineNumber left
    (move, load path schema lineNumber left)
  | unreadable fault => (.item (.error fault), unreadable fault)
  | rows all left =>
    let (move, left) := takeFirst left
    (move, rows all left)
  | scan left =>
    let (move, left) := takeFirst left
    (move, scan left)
  | join left right on (some (t, waiting)) =>
    match nextPair on t waiting with
    | some (pair, waiting) => (.item (.ok pair), join left right on (some (t, waiting)))
    | none => (.on, join left right on none)
  | join left right on none =>
    match step left with
    | (.item (.ok t), left) => (.on, join left right on (some (t, right)))
    | (move, left) => (move, join left right on none)
  | foreach input columns =>
    match step input with
    | (.item (.ok t), input) =>
      match t.select? columns with
      | some t => (.item (.ok t), foreach input columns)
      | none => (.item (.error (.invalidPlan "foreach index outside input tuple")),
          foreach input columns)
    | (move, input) => (move, foreach input columns)
  | union first second true =>
    match step second with
    | (move, second) => (move, union first second true)
  | union first second false =>
    match step first with
    | (.done, first) => (.on, union first second true)
    | (move, first) => (move, union first second false)
  | distinct input seen =>
    match step input with
    | (.item (.ok t), input) =>
      if t ∈ seen then (.on, distinct input seen)
      else (.item (.ok t), distinct input (t :: seen))
    | (move, input) => (move, distinct input seen)
  | limit input count emitted =>
    if count ≤ emitted then (.done, limit input count emitted)
    else
      match step input with
      | (.item (.ok t), input) => (.item (.ok t), limit input count (emitted + 1))
      | (move, input) => (move, limit input count emitted)

/-! ## Moves use something up -/

/-- A bound on the moves that are left, failures apart. -/
def budget : Stream → Nat
  | load _ _ _ left => left.length
  | unreadable _ => 0
  | rows _ left => left.length
  | scan left => left.length
  | join left right _ none => left.budget * (right.length + 2)
  | join left right _ (some (_, waiting)) =>
    left.budget * (right.length + 2) + waiting.length + 1
  | foreach input _ => input.budget
  | union _ second true => second.budget
  | union first second false => first.budget + second.budget + 1
  | distinct input _ => input.budget
  | limit input _ _ => input.budget

/-- The move is neither a failure nor the end. -/
def Move.isProgress : Move → Bool
  | item (.ok _) | on => true
  | item (.error _) | done => false

theorem length_nextRecord {path : String} {schema : Schema} {lineNumber n : Nat}
    {left behind : List (Option String)} {move : Move}
    (h : nextRecord path schema lineNumber left = (move, n, behind)) (hp : move.isProgress) :
    behind.length < left.length := by
  fun_induction nextRecord path schema lineNumber left with
  | case1 => cases h; cases hp
  | case2 => cases h; cases hp
  | case3 lineNumber line left _ ih => exact Nat.lt_succ_of_lt (ih h)
  | case4 => cases h; simp

theorem length_takeFirst {left behind : List Tuple} {move : Move}
    (h : takeFirst left = (move, behind)) (hp : move.isProgress) :
    behind.length < left.length := by
  cases left with
  | nil => cases h; cases hp
  | cons => cases h; simp

theorem length_nextPair {on : List (Nat × Nat)} {t pair : Tuple} {waiting left : List Tuple}
    (h : nextPair on t waiting = some (pair, left)) : left.length < waiting.length := by
  induction waiting with
  | nil => cases h
  | cons r waiting ih =>
    rw [nextPair] at h
    split at h
    · cases h; simp
    · exact Nat.lt_succ_of_lt (ih h)

theorem budget_lt_of_step {s s' : Stream} {move : Move} (h : s.step = (move, s'))
    (hp : move.isProgress) : s'.budget < s.budget := by
  fun_induction step s generalizing s' move with
  | case1 path schema lineNumber left m n behind hm =>
    cases h; exact length_nextRecord hm hp
  | case2 => cases h; cases hp
  | case3 all left m behind hm => cases h; exact length_takeFirst hm hp
  | case4 left m behind hm => cases h; exact length_takeFirst hm hp
  | case5 left right on t waiting pair rest hpair =>
    cases h
    have := length_nextPair hpair
    simp only [budget]
    omega
  | case6 => cases h; simp only [budget]; omega
  | case7 left right on t left' hm ih =>
    cases h
    have hlt := ih hm rfl
    have := Nat.mul_le_mul_right (right.length + 2) (Nat.succ_le_of_lt hlt)
    simp only [budget]
    rw [Nat.succ_mul] at this
    omega
  | case8 left right on m left' hm _ ih =>
    cases h
    exact Nat.mul_lt_mul_of_pos_right (ih ‹_› hp) (by omega)
  | case9 input columns t input' hm t' hs ih =>
    cases h
    simp only [budget]
    exact ih hm rfl
  | case10 input columns t input' hm hs ih => cases h; cases hp
  | case11 input columns m input' hm _ ih =>
    cases h
    simp only [budget]
    exact ih ‹_› hp
  | case12 first second m second' hm ih =>
    cases h
    simp only [budget]
    exact ih hm hp
  | case13 first second first' hm ih => cases h; simp only [budget]; omega
  | case14 first second m first' hm _ ih =>
    cases h
    have := ih ‹_› hp
    simp only [budget]
    omega
  | case15 input seen t input' hm hseen ih =>
    cases h
    simp only [budget]
    exact ih hm rfl
  | case16 input seen t input' hm hseen ih =>
    cases h
    simp only [budget]
    exact ih hm rfl
  | case17 input seen m input' hm _ ih =>
    cases h
    simp only [budget]
    exact ih ‹_› hp
  | case18 => cases h; cases hp
  | case19 input count emitted _ t input' hm ih =>
    cases h
    simp only [budget]
    exact ih hm rfl
  | case20 input count emitted _ m input' hm _ ih =>
    cases h
    simp only [budget]
    exact ih ‹_› hp

/-! ## Pulling -/

set_option linter.unusedVariables false in
/-- Moves until there is an item, or the end (`none`). -/
def next (s : Stream) : Option Item × Stream :=
  match h : s.step with
  | (.item item, s') => (some item, s')
  | (.done, s') => (none, s')
  | (.on, s') => next s'
termination_by s.budget
decreasing_by exact budget_lt_of_step h rfl

theorem budget_lt_of_next {s s' : Stream} {t : Tuple} (h : s.next = (some (.ok t), s')) :
    s'.budget < s.budget := by
  fun_induction next s with
  | case1 s item s'' hs => cases h; exact budget_lt_of_step hs rfl
  | case2 => cases h
  | case3 s s'' hs ih => exact Nat.lt_trans (ih h) (budget_lt_of_step hs rfl)

/-- Tuples that were pulled, and how pulling ended. -/
structure Pulled where
  tuples : List Tuple
  /-- The stream said that there is no more. -/
  ended : Bool
  failure : Option Error

/-- Pulls up to `n` tuples, and stops at the end or the first failure. -/
def pull : Nat → Stream → Pulled × Stream
  | 0, s => (⟨[], false, none⟩, s)
  | n + 1, s =>
    match s.next with
    | (some (.ok t), s) =>
      let (more, s) := pull n s
      ({ more with tuples := t :: more.tuples }, s)
    | (some (.error e), s) => (⟨[], false, some e⟩, s)
    | (none, s) => (⟨[], true, none⟩, s)

set_option linter.unusedVariables false in
/-- Pulls to the end or the first failure. -/
def pullAll (s : Stream) : Pulled :=
  match h : s.next with
  | (some (.ok t), s') =>
    let more := pullAll s'
    { more with tuples := t :: more.tuples }
  | (some (.error e), _) => ⟨[], false, some e⟩
  | (none, _) => ⟨[], true, none⟩
termination_by s.budget
decreasing_by exact budget_lt_of_next h

/-- All tuples that are left, unless there is a failure among them. -/
def drain (s : Stream) : Except Error (List Tuple) :=
  let pulled := s.pullAll
  match pulled.failure with
  | some e => .error e
  | none => .ok pulled.tuples

/-! ## Starting again -/

/-- Whether the stream can be read again. -/
def pass : Stream → Pass
  | load .. | unreadable _ | scan _ => .single
  | rows .. => .restartable
  | join left .. => left.pass
  | foreach input _ | distinct input _ | limit input .. => input.pass
  | union first second _ => first.pass.both second.pass

/-- Starts the stream again.  Where an input cannot be read again the stream stays as it is, but
for the inputs in front of that one. -/
def rewind : Stream → Except Error Unit × Stream
  | load path schema lineNumber left =>
    (.error (.notRestartable "LOAD"), load path schema lineNumber left)
  | unreadable fault => (.error (.notRestartable "LOAD"), unreadable fault)
  | rows all _ => (.ok (), rows all all)
  | scan left => (.error (.notRestartable "SCAN"), scan left)
  | join left right on current =>
    match rewind left with
    | (.ok (), left) => (.ok (), join left right on none)
    | (.error e, left) => (.error e, join left right on current)
  | foreach input columns =>
    let (outcome, input) := rewind input
    (outcome, foreach input columns)
  | union first second onSecond =>
    match rewind first with
    | (.error e, first) => (.error e, union first second onSecond)
    | (.ok (), first) =>
      match rewind second with
      | (.error e, second) => (.error e, union first second onSecond)
      | (.ok (), second) => (.ok (), union first second false)
  | distinct input seen =>
    match rewind input with
    | (.ok (), input) => (.ok (), distinct input [])
    | (.error e, input) => (.error e, distinct input seen)
  | limit input count emitted =>
    match rewind input with
    | (.ok (), input) => (.ok (), limit input count 0)
    | (.error e, input) => (.error e, limit input count emitted)

end Stream

end BagQuery
