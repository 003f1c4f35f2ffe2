import BagQuery.Stream

/-!
# What a stream has left

`Stream.items` is the list of all items, tuples and failures, that a stream still hands out.  It
is read off the state of the stream, operator by operator, and says nothing about moves.

* `step_explained`: a move takes the first item off that list, or leaves the list as it is.
* `answer_eq_getElem?`: call after call, a stream answers with the items of the list in order, and
  from its end on with nothing.
* `drain_eq_tuples`: draining a stream gives the tuples of the list, or the first failure in it.

The one stream that never ends is a file that was opened but cannot be read: it fails again with
every call.  In the list its failure stands once, so a list is exact up to the first failure
always, and to its end for a stream without such a file (`Regular`).
-/

namespace BagQuery

namespace Stream

/-! ## Lists of items -/

/-- Tuples as items. -/
def given (ts : List Tuple) : List Item := ts.map .ok

/-- The tuples of some items, or the first failure among them. -/
def tuples : List Item → Except Error (List Tuple)
  | [] => .ok []
  | .ok t :: items => (tuples items).map (t :: ·)
  | .error e :: _ => .error e

/-- The items of the lines of a file, of which `lineNumber` lines were read before. -/
def lineItems (path : String) (schema : Schema) : (lineNumber : Nat) → List (Option String) →
    List Item
  | _, [] => []
  | lineNumber, none :: lines =>
    .error (.load path FileFault.notText.reason) :: lineItems path schema lineNumber lines
  | lineNumber, some line :: lines =>
    (if isSkipped line then []
      else [(Record.read schema line).mapError (atLine path (lineNumber + 1))])
      ++ lineItems path schema (lineNumber + 1) lines

/-- Each pair of columns is there and holds equal values. -/
def Agrees (on : List (Nat × Nat)) (t : Tuple) : Prop :=
  ∀ p ∈ on, t.get? p.1 ≠ none ∧ t.get? p.1 = t.get? p.2

instance (on : List (Nat × Nat)) (t : Tuple) : Decidable (Agrees on t) :=
  inferInstanceAs (Decidable (∀ p ∈ on, _))

/-- The pairs of `t` with the tuples of the right side that go with it. -/
def pairs (on : List (Nat × Nat)) (right : List Tuple) (t : Tuple) : List Tuple :=
  (right.map t.append).filter fun pair => decide (Agrees on pair)

/-- What an item of the left side of a join becomes. -/
def joined (on : List (Nat × Nat)) (right : List Tuple) : Item → List Item
  | .ok t => given (pairs on right t)
  | .error e => [.error e]

/-- What an item becomes when some columns are chosen. -/
def selected (columns : List Nat) : Item → Item
  | .ok t =>
    match t.select? columns with
    | some t => .ok t
    | none => .error (.invalidPlan "foreach index outside input tuple")
  | .error e => .error e

/-- Failures, and each tuple that is not among `seen` where it comes first. -/
def firsts : (seen : List Tuple) → List Item → List Item
  | _, [] => []
  | seen, .ok t :: items => if t ∈ seen then firsts seen items else .ok t :: firsts (t :: seen) items
  | seen, .error e :: items => .error e :: firsts seen items

/-- The items up to the tuple with number `n`. -/
def limited : (n : Nat) → List Item → List Item
  | 0, _ => []
  | _ + 1, [] => []
  | n + 1, .ok t :: items => .ok t :: limited n items
  | n + 1, .error e :: items => .error e :: limited (n + 1) items

theorem given_cons (t : Tuple) (ts : List Tuple) : given (t :: ts) = .ok t :: given ts := rfl

theorem given_append (ts us : List Tuple) : given (ts ++ us) = given ts ++ given us :=
  List.map_append ..

theorem tuples_given (ts : List Tuple) : tuples (given ts) = .ok ts := by
  induction ts with
  | nil => rfl
  | cons t ts ih => rw [given_cons, tuples, ih]; rfl

theorem eq_given_of_tuples {items : List Item} {ts : List Tuple} (h : tuples items = .ok ts) :
    items = given ts := by
  induction items generalizing ts with
  | nil => cases h; rfl
  | cons item items ih =>
    cases item with
    | error e => cases h
    | ok t =>
      rw [tuples] at h
      cases hts : tuples items with
      | error e => rw [hts] at h; cases h
      | ok us => rw [hts] at h; cases h; rw [ih hts, given_cons]

theorem tuples_eq_ok_iff {items : List Item} {ts : List Tuple} :
    tuples items = .ok ts ↔ items = given ts :=
  ⟨eq_given_of_tuples, fun h => h ▸ tuples_given ts⟩

theorem agrees_eq_decide (on : List (Nat × Nat)) (t : Tuple) :
    agrees on t = decide (Agrees on t) := by
  rw [Bool.eq_iff_iff, decide_eq_true_iff, agrees, List.all_eq_true]
  refine forall₂_congr fun p _ => ?_
  simp [Option.isSome_iff_ne_none]

theorem pairs_cons (on : List (Nat × Nat)) (r : Tuple) (right : List Tuple) (t : Tuple) :
    pairs on (r :: right) t =
      if agrees on (t.append r) then t.append r :: pairs on right t else pairs on right t := by
  rw [pairs, List.map_cons, List.filter_cons, ← agrees_eq_decide]
  rfl

/-! ## The items of a stream -/

/-- What is left of the work on the left tuple of a join. -/
def waitingPairs (on : List (Nat × Nat)) : Option (Tuple × List Tuple) → List Item
  | none => []
  | some (t, waiting) => given (pairs on waiting t)

/-- All that a stream still hands out. -/
def items : Stream → List Item
  | load path schema lineNumber left => lineItems path schema lineNumber left
  | unreadable fault => [.error fault]
  | rows _ left => given left
  | scan left => given left
  | join left right on current => waitingPairs on current ++ left.items.flatMap (joined on right)
  | foreach input columns => input.items.map (selected columns)
  | union first second false => first.items ++ second.items
  | union _ second true => second.items
  | distinct input seen => firsts seen input.items
  | limit input count emitted => limited (count - emitted) input.items

/-- All files that the stream reads from can be read. -/
def Regular : Stream → Prop
  | load .. | rows .. | scan _ => True
  | unreadable _ => False
  | join left .. => left.Regular
  | foreach input _ | distinct input _ | limit input .. => input.Regular
  | union first second _ => first.Regular ∧ second.Regular

/-! ## Moves -/

/-- What a move from `s` to `s'` says about the items that are left. -/
def Move.Explained (s s' : Stream) : Move → Prop
  | .item (.ok t) => s.items = .ok t :: s'.items
  | .item (.error e) => ∃ rest, s.items = .error e :: rest ∧ (s.Regular → rest = s'.items)
  | .on => s.items = s'.items
  | .done => s.items = [] ∧ s'.items = []

theorem nextRecord_explained {path : String} {schema : Schema} {n n' : Nat}
    {left left' : List (Option String)} {move : Move}
    (h : nextRecord path schema n left = (move, n', left')) :
    move.Explained (load path schema n left) (load path schema n' left') := by
  fun_induction nextRecord path schema n left with
  | case1 => cases h; exact ⟨rfl, rfl⟩
  | case2 => cases h; exact ⟨_, rfl, fun _ => rfl⟩
  | case3 n line left hskip ih =>
    have hitems : items (load path schema n (some line :: left))
        = items (load path schema (n + 1) left) := by
      rw [items, lineItems, if_pos hskip]; rfl
    have hskipped := ih h
    cases move with
    | item item =>
      cases item with
      | ok t => exact hitems.trans hskipped
      | error e =>
        obtain ⟨rest, hrest, hreg⟩ := hskipped
        exact ⟨rest, hitems.trans hrest, fun _ => hreg trivial⟩
    | on => exact hitems.trans hskipped
    | done => exact ⟨hitems.trans hskipped.1, hskipped.2⟩
  | case4 n line left hskip =>
    have hitems : items (load path schema n (some line :: left))
        = (Record.read schema line).mapError (atLine path (n + 1))
          :: items (load path schema (n + 1) left) := by
      rw [items, lineItems, if_neg hskip]; rfl
    cases h
    cases hread : Record.read schema line with
    | ok t => rw [hread] at hitems; exact hitems
    | error e => rw [hread] at hitems; exact ⟨_, hitems, fun _ => rfl⟩

theorem pairs_of_nextPair (on : List (Nat × Nat)) (t : Tuple) (waiting : List Tuple) :
    pairs on waiting t =
      match nextPair on t waiting with
      | some (pair, left) => pair :: pairs on left t
      | none => [] := by
  induction waiting with
  | nil => rfl
  | cons r waiting ih =>
    rw [pairs_cons, nextPair]
    by_cases h : agrees on (t.append r) = true
    · simp only [h, if_true]
    · rw [if_neg h, if_neg h]; exact ih

theorem regular_of_step {s s' : Stream} {move : Move} (h : s.step = (move, s'))
    (hr : s.Regular) : s'.Regular := by
  fun_induction step s generalizing s' move with
  | case1 | case2 | case3 | case4 | case5 | case6 | case18 => cases h; exact hr
  | case7 left right on t left' hm ih => cases h; have := ih hm hr; exact this
  | case8 left right on m left' hm hstep ih => cases h; have := ih hstep hr; exact this
  | case9 input columns t input' hm t' hs ih => cases h; have := ih hm hr; exact this
  | case10 input columns t input' hm hs ih => cases h; have := ih hm hr; exact this
  | case11 input columns m input' hm hstep ih => cases h; have := ih hstep hr; exact this
  | case12 first second m second' hm ih => cases h; exact ⟨hr.1, ih hm hr.2⟩
  | case13 first second first' hm ih => cases h; exact ⟨ih hm hr.1, hr.2⟩
  | case14 first second m first' hm hstep ih => cases h; exact ⟨ih hstep hr.1, hr.2⟩
  | case15 input seen t input' hm hseen ih => cases h; have := ih hm hr; exact this
  | case16 input seen t input' hm hseen ih => cases h; have := ih hm hr; exact this
  | case17 input seen m input' hm hstep ih => cases h; have := ih hstep hr; exact this
  | case19 input count emitted _ t input' hm ih => cases h; have := ih hm hr; exact this
  | case20 input count emitted _ m input' hm hstep ih => cases h; have := ih hstep hr; exact this

/-- An operator that makes `F` of the items of its input, and passes a move of the input on. -/
theorem Move.Explained.through {s s' input input' : Stream} {move : Move}
    (h : move.Explained input input') (F : List Item → List Item)
    (hs : s.items = F input.items) (hs' : s'.items = F input'.items)
    (hreg : s.Regular → input.Regular)
    (hok : ∀ t, move = .item (.ok t) → ∀ rest, F (.ok t :: rest) = .ok t :: F rest)
    (herror : ∀ e rest, F (.error e :: rest) = .error e :: F rest)
    (hdone : move = .done → F [] = []) : move.Explained s s' := by
  match move with
  | .item (.ok t) =>
    have h : input.items = .ok t :: input'.items := h
    show s.items = _
    rw [hs, h, hok t rfl, hs']
  | .item (.error e) =>
    obtain ⟨rest, hrest, hr⟩ := h
    refine ⟨F rest, ?_, fun hreg' => ?_⟩
    · rw [hs, hrest, herror]
    · rw [hr (hreg hreg'), hs']
  | .on =>
    have h : input.items = input'.items := h
    show s.items = _
    rw [hs, h, hs']
  | .done =>
    refine ⟨?_, ?_⟩
    · rw [hs, h.1, hdone rfl]
    · rw [hs', h.2, hdone rfl]

theorem takeFirst_explained {left behind : List Tuple} {move : Move} {s s' : Stream}
    (h : takeFirst left = (move, behind)) (hs : s.items = given left)
    (hs' : s'.items = given behind) : move.Explained s s' := by
  cases left with
  | nil => cases h; exact ⟨hs, hs'⟩
  | cons t left => cases h; exact hs.trans (hs' ▸ rfl)

theorem limited_pos_ok {count emitted : Nat} (h : ¬count ≤ emitted) (t : Tuple)
    (items : List Item) : limited (count - emitted) (.ok t :: items)
      = .ok t :: limited (count - (emitted + 1)) items := by
  rw [show count - emitted = count - (emitted + 1) + 1 by omega, limited]

theorem limited_error (n : Nat) (e : Error) (items : List Item) (h : n ≠ 0) :
    limited n (.error e :: items) = .error e :: limited n items := by
  obtain ⟨n, rfl⟩ := Nat.exists_eq_succ_of_ne_zero h
  rfl

theorem limited_nil (n : Nat) : limited n [] = [] := by cases n <;> rfl

/-- **A move takes the first item off what is left, or leaves it as it is.** -/
theorem step_explained {s s' : Stream} {move : Move} (h : s.step = (move, s')) :
    move.Explained s s' := by
  fun_induction step s generalizing s' move with
  | case1 path schema lineNumber left m n behind hm => cases h; exact nextRecord_explained hm
  | case2 fault => cases h; exact ⟨[], rfl, False.elim⟩
  | case3 all left m behind hm => cases h; exact takeFirst_explained hm rfl rfl
  | case4 left m behind hm => cases h; exact takeFirst_explained hm rfl rfl
  -- a join at work on a left tuple: the next pair is the head of what it is waiting for
  | case5 left right on t waiting pair rest hpair =>
    cases h
    show items _ = _
    simp only [items, waitingPairs, pairs_of_nextPair on t waiting, hpair]
    rfl
  | case6 left right on t waiting hpair =>
    cases h
    show items _ = _
    simp only [items, waitingPairs, pairs_of_nextPair on t waiting, hpair]
    rfl
  | case7 left right on t left' hm ih =>
    cases h
    have h : left.items = .ok t :: left'.items := ih hm
    show items _ = _
    rw [items, h, List.flatMap_cons]
    rfl
  | case8 left right on m left' hm hstep ih =>
    cases h
    exact (ih hstep).through (·.flatMap (joined on right)) rfl rfl id
      (fun t ht => absurd ht (hm t)) (fun _ _ => rfl) fun _ => rfl
  | case9 input columns t input' hm t' hs ih =>
    cases h
    have h : input.items = .ok t :: input'.items := ih hm
    show items _ = _
    rw [items, h, List.map_cons, selected, hs]
    rfl
  | case10 input columns t input' hm hs ih =>
    cases h
    have h : input.items = .ok t :: input'.items := ih hm
    refine ⟨input'.items.map (selected columns), ?_, fun _ => rfl⟩
    rw [items, h, List.map_cons, selected, hs]
  | case11 input columns m input' hm hstep ih =>
    cases h
    exact (ih hstep).through (·.map (selected columns)) rfl rfl id
      (fun t ht => absurd ht (hm t)) (fun _ _ => rfl) fun _ => rfl
  | case12 first second m second' hm ih =>
    cases h
    exact (ih hm).through id rfl rfl And.right (fun _ _ _ => rfl) (fun _ _ => rfl) fun _ => rfl
  | case13 first second first' hm ih =>
    cases h
    have h : first.items = [] := (ih hm).1
    show items _ = _
    rw [items, h]
    rfl
  | case14 first second m first' hm hstep ih =>
    cases h
    exact (ih hstep).through (· ++ second.items) rfl rfl And.left (fun _ _ _ => rfl)
      (fun _ _ => rfl) fun hdone => absurd hdone hm
  | case15 input seen t input' hm hseen ih =>
    cases h
    have h : input.items = .ok t :: input'.items := ih hm
    show items _ = _
    rw [items, h, firsts, if_pos hseen]
    rfl
  | case16 input seen t input' hm hseen ih =>
    cases h
    have h : input.items = .ok t :: input'.items := ih hm
    show items _ = _
    rw [items, h, firsts, if_neg hseen]
    rfl
  | case17 input seen m input' hm hstep ih =>
    cases h
    exact (ih hstep).through (firsts seen) rfl rfl id (fun t ht => absurd ht (hm t))
      (fun _ _ => rfl) fun _ => rfl
  | case18 input count emitted hle =>
    cases h
    have : items (limit input count emitted) = [] := by
      rw [items, Nat.sub_eq_zero_of_le hle, limited]
    exact ⟨this, this⟩
  | case19 input count emitted hle t input' hm ih =>
    cases h
    have h : input.items = .ok t :: input'.items := ih hm
    show items _ = _
    rw [items, h, limited_pos_ok hle]
    rfl
  | case20 input count emitted hle m input' hm hstep ih =>
    cases h
    exact (ih hstep).through (limited (count - emitted)) rfl rfl id
      (fun t ht => absurd ht (hm t)) (fun e rest => limited_error _ e rest (by omega))
      fun _ => limited_nil _

/-! ## Calls -/

/-- The move that a call of `next` comes down to. -/
def moveOf : Option Item → Move
  | some item => .item item
  | none => .done

theorem explained_of_on {s s' s'' : Stream} {answer : Option Item} (h : s.items = s'.items)
    (hr : s.Regular → s'.Regular) (hs : (moveOf answer).Explained s' s'') :
    (moveOf answer).Explained s s'' := by
  match answer with
  | some (.ok t) => exact h.trans hs
  | some (.error e) =>
    obtain ⟨rest, hrest, hreg⟩ := hs
    exact ⟨rest, h.trans hrest, fun hs => hreg (hr hs)⟩
  | none => exact ⟨h.trans hs.1, hs.2⟩

/-- A call takes the first item off what is left; it answers with nothing when nothing is left. -/
theorem next_explained {s s' : Stream} {answer : Option Item} (h : s.next = (answer, s')) :
    (moveOf answer).Explained s s' := by
  fun_induction next s with
  | case1 s item s'' hs => cases h; exact step_explained hs
  | case2 s s'' hs => cases h; exact step_explained hs
  | case3 s s'' hs ih => exact explained_of_on (step_explained hs) (regular_of_step hs) (ih h)

theorem regular_of_next {s s' : Stream} {answer : Option Item} (h : s.next = (answer, s'))
    (hr : s.Regular) : s'.Regular := by
  fun_induction next s with
  | case1 s item s'' hs => cases h; exact regular_of_step hs hr
  | case2 s s'' hs => cases h; exact regular_of_step hs hr
  | case3 s s'' hs ih => exact ih h (regular_of_step hs hr)

/-- What the call of `next` with number `n` answers, counted from zero. -/
def answer : Nat → Stream → Option Item
  | 0, s => s.next.1
  | n + 1, s => answer n s.next.2

/-- **Call after call a stream answers with its items in order, and then with nothing.** -/
theorem answer_eq_getElem? {s : Stream} (hr : s.Regular) (n : Nat) :
    s.answer n = s.items[n]? := by
  induction n generalizing s with
  | zero =>
    rw [answer]
    cases h : s.next with
    | mk a s' =>
      have hs := next_explained h
      match a with
      | some (.ok t) => rw [show s.items = _ from hs]; rfl
      | some (.error e) => obtain ⟨rest, hrest, -⟩ := hs; rw [hrest]; rfl
      | none => rw [hs.1]; rfl
  | succ n ih =>
    rw [answer]
    cases h : s.next with
    | mk a s' =>
      have hs := next_explained h
      rw [ih (regular_of_next h hr)]
      match a with
      | some (.ok t) => rw [show s.items = _ from hs, List.getElem?_cons_succ]
      | some (.error e) =>
        obtain ⟨rest, hrest, hreg⟩ := hs
        rw [hrest, hreg hr, List.getElem?_cons_succ]
      | none => rw [hs.1, hs.2]; rfl

/-! ## Draining -/

/-- What draining makes of what was pulled. -/
def Pulled.outcome (p : Pulled) : Except Error (List Tuple) :=
  match p.failure with
  | some e => .error e
  | none => .ok p.tuples

theorem drain_eq_outcome (s : Stream) : s.drain = s.pullAll.outcome := rfl

theorem Pulled.outcome_cons (t : Tuple) (p : Pulled) :
    outcome { p with tuples := t :: p.tuples } = p.outcome.map (t :: ·) := by
  unfold outcome
  cases p.failure <;> rfl

theorem drain_of_tuple {s s' : Stream} {t : Tuple} (h : s.next = (some (.ok t), s')) :
    s.drain = s'.drain.map (t :: ·) := by
  rw [drain_eq_outcome, pullAll]
  split
  · next hs => rw [h] at hs; cases hs; exact Pulled.outcome_cons t _
  · next hs => rw [h] at hs; cases hs
  · next hs => rw [h] at hs; cases hs

theorem drain_of_failure {s s' : Stream} {e : Error} (h : s.next = (some (.error e), s')) :
    s.drain = .error e := by
  rw [drain_eq_outcome, pullAll]
  split
  · next hs => rw [h] at hs; cases hs
  · next hs => rw [h] at hs; cases hs; rfl
  · next hs => rw [h] at hs; cases hs

theorem drain_of_end {s s' : Stream} (h : s.next = (none, s')) : s.drain = .ok [] := by
  rw [drain_eq_outcome, pullAll]
  split
  · next hs => rw [h] at hs; cases hs
  · next hs => rw [h] at hs; cases hs
  · rfl

/-- **Draining takes the tuples that are left, up to the first failure.** -/
theorem drain_eq_tuples (s : Stream) : s.drain = tuples s.items := by
  induction s using pullAll.induct with
  | case1 s t s' h ih =>
    rw [drain_of_tuple h, ih, show s.items = .ok t :: s'.items from next_explained h, tuples]
  | case2 s e s' h =>
    obtain ⟨rest, hrest, -⟩ := next_explained h
    rw [drain_of_failure h, hrest, tuples]
  | case3 s s' h => rw [drain_of_end h, (next_explained h).1, tuples]

end Stream

end BagQuery
