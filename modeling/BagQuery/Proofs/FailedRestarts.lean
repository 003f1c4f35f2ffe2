import BagQuery.Proofs.Rewinding

/-!
# Restarts that fail

A restart asks the inputs of a stream one after another, and fails at the first one that cannot be
read again.  By then a union has started its first input again, if that one can be read again.
While the union stands in its first input this shows: what was handed out comes again, and a limit
on the union counts it once more.

* `items_rewind_of_single`: `Stream.revived` is the list of what comes after a restart that failed.
* `Stream.live` leaves out what a stream has done with.  Streams that are alike in the rest answer
  alike (`answer_of_live_eq`), also where a file cannot be read and the answers never end.
* `live_rewind_of_single`: a restart that fails changes nothing else, unless a union starts over
  (`Stream.StartsOver`).
-/

namespace BagQuery

theorem Pass.eq_single_of_both {a b : Pass} (h : a.both b = .single) (ha : a = .restartable) :
    b = .single := by
  subst ha
  cases b with
  | single => rfl
  | restartable => cases h

theorem Pass.ne_restartable_of_single {p : Pass} (h : p = .single) : p ≠ .restartable := by
  rw [h]
  decide

namespace Stream

variable {s t s' : Stream}

/-! ## What comes after a restart that failed -/

/-- What comes after a restart that failed.  A union in its first input hands that one out from the
beginning, if it can be read again. -/
def revived : Stream → List Item
  | load path schema lineNumber left => (load path schema lineNumber left).items
  | unreadable fault => (unreadable fault).items
  | rows all left => (rows all left).items
  | scan left => (scan left).items
  | join left right on current => waitingPairs on current ++ left.revived.flatMap (joined on right)
  | foreach input columns => input.revived.map (selected columns)
  | union first second false =>
    if first.pass = .restartable then first.origin.items ++ second.revived
    else first.revived ++ second.items
  | union first second true => if first.pass = .restartable then second.revived else second.items
  | distinct input seen => firsts seen input.revived
  | limit input count emitted => limited (count - emitted) input.revived

/-- How a restart of a union fails: in its first input, or in its second one when the first one has
started again. -/
theorem rewind_union_of_single {first second : Stream} {onSecond : Bool}
    (h : (union first second onSecond).pass = .single) :
    (first.pass = .single ∧
        (union first second onSecond).rewind.2 = union first.rewind.2 second onSecond) ∨
      (first.pass = .restartable ∧ second.pass = .single ∧
        (union first second onSecond).rewind.2 =
          union first.origin second.rewind.2 onSecond) := by
  cases hfirst : first.pass with
  | single =>
    obtain ⟨source, first', hrewind, -⟩ := rewind_of_single hfirst
    exact Or.inl ⟨rfl, by rw [rewind, hrewind]⟩
  | restartable =>
    have hsecond : second.pass = .single := Pass.eq_single_of_both h hfirst
    obtain ⟨source, second', hrewind, -⟩ := rewind_of_single hsecond
    refine Or.inr ⟨rfl, hsecond, ?_⟩
    simp only [rewind, rewind_of_restartable hfirst, hrewind]

/-- An operator with one input keeps its own state when a restart fails. -/
theorem rewind_input_of_single (input : Stream) (h : input.pass = .single) :
    (∀ right on current, (join input right on current).rewind.2
        = join input.rewind.2 right on current) ∧
      (∀ seen, (distinct input seen).rewind.2 = distinct input.rewind.2 seen) ∧
      ∀ count emitted, (limit input count emitted).rewind.2
        = limit input.rewind.2 count emitted := by
  obtain ⟨source, input', hrewind, -⟩ := rewind_of_single h
  simp only [rewind, hrewind, implies_true, and_self]

/-- **After a restart that failed a stream has the revived items left.** -/
theorem items_rewind_of_single (h : s.pass = .single) : s.rewind.2.items = s.revived := by
  induction s with
  | load | unreadable | scan => rfl
  | rows => cases h
  | join left right on current ih =>
    rw [(rewind_input_of_single left h).1, items, ih h, revived]
  | foreach input columns ih => rw [rewind, items, ih h, revived]
  | union first second onSecond ih₁ ih₂ =>
    obtain ⟨hfirst, hrewind⟩ | ⟨hfirst, hsecond, hrewind⟩ := rewind_union_of_single h
    · have hne := Pass.ne_restartable_of_single hfirst
      rw [hrewind]
      cases onSecond with
      | false => rw [items, ih₁ hfirst, revived, if_neg hne]
      | true => rw [items, revived, if_neg hne]
    · rw [hrewind]
      cases onSecond with
      | false => rw [items, ih₂ hsecond, revived, if_pos hfirst]
      | true => rw [items, ih₂ hsecond, revived, if_pos hfirst]
  | distinct input seen ih =>
    rw [(rewind_input_of_single input h).2.1, items, ih h, revived]
  | limit input count emitted ih =>
    rw [(rewind_input_of_single input h).2.2, items, ih h, revived]

/-! ## What is left of a stream -/

/-- The stream with the inputs that it has done with at their origins: it never looks at them
again. -/
def live : Stream → Stream
  | load path schema lineNumber left => load path schema lineNumber left
  | unreadable fault => unreadable fault
  | rows all left => rows all left
  | scan left => scan left
  | join left right on current => join left.live right on current
  | foreach input columns => foreach input.live columns
  | union first second false => union first.live second.live false
  | union first second true => union first.origin second.live true
  | distinct input seen => distinct input.live seen
  | limit input count emitted => limit input.live count emitted

theorem origin_live (s : Stream) : s.live.origin = s.origin := by
  induction s with
  | load | unreadable | rows | scan => rfl
  | join left right on current ih => rw [live, origin, ih, origin]
  | foreach input columns ih => rw [live, origin, ih, origin]
  | union first second onSecond ih₁ ih₂ =>
    cases onSecond with
    | false => rw [live, origin, ih₁, ih₂, origin]
    | true => rw [live, origin, origin_origin, ih₂, origin]
  | distinct input seen ih => rw [live, origin, ih, origin]
  | limit input count emitted ih => rw [live, origin, ih, origin]

theorem live_live (s : Stream) : s.live.live = s.live := by
  induction s with
  | load | unreadable | rows | scan => rfl
  | join left right on current ih => rw [live, live, ih]
  | foreach input columns ih => rw [live, live, ih]
  | union first second onSecond ih₁ ih₂ =>
    cases onSecond with
    | false => rw [live, live, ih₁, ih₂]
    | true => rw [live, live, origin_origin, ih₂]
  | distinct input seen ih => rw [live, live, ih]
  | limit input count emitted ih => rw [live, live, ih]

/-- A move does not look at what the stream has done with. -/
theorem step_live {move : Move} (h : s.step = (move, s')) :
    ∃ t, s.live.step = (move, t) ∧ t.live = s'.live := by
  fun_induction step s generalizing s' move with
  | case1 path schema lineNumber left m n behind hm =>
    cases h
    exact ⟨_, by rw [live, step, hm], rfl⟩
  | case2 fault =>
    cases h
    exact ⟨_, rfl, rfl⟩
  | case3 all left m behind hm =>
    cases h
    exact ⟨_, by rw [live, step, hm], rfl⟩
  | case4 left m behind hm =>
    cases h
    exact ⟨_, by rw [live, step, hm], rfl⟩
  | case5 left right on t waiting pair rest hpair =>
    cases h
    exact ⟨join left.live right on (some (t, rest)), by rw [live, step, hpair],
      by rw [live, live, live_live]⟩
  | case6 left right on t waiting hpair =>
    cases h
    exact ⟨join left.live right on none, by rw [live, step, hpair], by rw [live, live, live_live]⟩
  | case7 left right on t left' hm ih =>
    cases h
    obtain ⟨l, hl, hlive⟩ := ih hm
    exact ⟨join l right on (some (t, right)), by rw [live, step, hl], by rw [live, live, hlive]⟩
  | case8 left right on m left' hm hstep ih =>
    cases h
    obtain ⟨l, hl, hlive⟩ := ih hstep
    refine ⟨join l right on none, ?_, by rw [live, live, hlive]⟩
    rw [live, step, hl]
    split
    · next heq => cases heq; exact absurd rfl (hm _)
    · next heq => cases heq; rfl
  | case9 input columns t input' hm t' hs ih =>
    cases h
    obtain ⟨i, hi, hlive⟩ := ih hm
    exact ⟨foreach i columns, by simp only [live, step, hi, hs], by rw [live, live, hlive]⟩
  | case10 input columns t input' hm hs ih =>
    cases h
    obtain ⟨i, hi, hlive⟩ := ih hm
    exact ⟨foreach i columns, by simp only [live, step, hi, hs], by rw [live, live, hlive]⟩
  | case11 input columns m input' hm hstep ih =>
    cases h
    obtain ⟨i, hi, hlive⟩ := ih hstep
    refine ⟨foreach i columns, ?_, by rw [live, live, hlive]⟩
    rw [live, step, hi]
    split
    · next heq => cases heq; exact absurd rfl (hm _)
    · next heq => cases heq; rfl
  | case12 first second m second' hm ih =>
    cases h
    obtain ⟨g, hg, hlive⟩ := ih hm
    exact ⟨union first.origin g true, by rw [live, step, hg],
      by rw [live, live, hlive, origin_origin]⟩
  | case13 first second first' hm ih =>
    cases h
    obtain ⟨f, hf, hlive⟩ := ih hm
    -- the first input is done with now, and only its origin counts
    have horigin : f.origin = first'.origin := by rw [← origin_live f, hlive, origin_live]
    exact ⟨union f second.live true, by rw [live, step, hf],
      by rw [live, live, horigin, live_live]⟩
  | case14 first second m first' hm hstep ih =>
    cases h
    obtain ⟨f, hf, hlive⟩ := ih hstep
    refine ⟨union f second.live false, ?_, by rw [live, live, hlive, live_live]⟩
    rw [live, step, hf]
    split
    · next heq => cases heq; exact absurd rfl hm
    · next heq => cases heq; rfl
  | case15 input seen t input' hm hseen ih =>
    cases h
    obtain ⟨i, hi, hlive⟩ := ih hm
    exact ⟨distinct i seen, by simp only [live, step, hi, if_pos hseen],
      by rw [live, live, hlive]⟩
  | case16 input seen t input' hm hseen ih =>
    cases h
    obtain ⟨i, hi, hlive⟩ := ih hm
    exact ⟨distinct i (t :: seen), by simp only [live, step, hi, if_neg hseen],
      by rw [live, live, hlive]⟩
  | case17 input seen m input' hm hstep ih =>
    cases h
    obtain ⟨i, hi, hlive⟩ := ih hstep
    refine ⟨distinct i seen, ?_, by rw [live, live, hlive]⟩
    rw [live, step, hi]
    split
    · next heq => cases heq; exact absurd rfl (hm _)
    · next heq => cases heq; rfl
  | case18 input count emitted hle =>
    cases h
    exact ⟨limit input.live count emitted, by rw [live, step, if_pos hle],
      by rw [live, live, live_live]⟩
  | case19 input count emitted hle t input' hm ih =>
    cases h
    obtain ⟨i, hi, hlive⟩ := ih hm
    exact ⟨limit i count (emitted + 1), by rw [live, step, if_neg hle, hi],
      by rw [live, live, hlive]⟩
  | case20 input count emitted hle m input' hm hstep ih =>
    cases h
    obtain ⟨i, hi, hlive⟩ := ih hstep
    refine ⟨limit i count emitted, ?_, by rw [live, live, hlive]⟩
    rw [live, step, if_neg hle, hi]
    split
    · next heq => cases heq; exact absurd rfl (hm _)
    · next heq => cases heq; rfl

/-- Streams that are alike in what is left make the same move, and are alike behind it. -/
theorem step_of_live_eq {move : Move} (h : s.live = t.live) (hs : s.step = (move, s')) :
    ∃ t', t.step = (move, t') ∧ t'.live = s'.live := by
  obtain ⟨u, hu, hlive⟩ := step_live hs
  have ht : t.step = (t.step.1, t.step.2) := rfl
  obtain ⟨v, hv, hlive'⟩ := step_live ht
  rw [← h, hu] at hv
  obtain ⟨hmove, rfl⟩ := Prod.mk.inj hv
  exact ⟨t.step.2, by rw [hmove], hlive'.symm.trans hlive⟩

theorem next_of_step_item {item : Item} (h : s.step = (.item item, s')) :
    s.next = (some item, s') := by
  rw [next]
  split
  · next hs => rw [h] at hs; cases hs; rfl
  · next hs => rw [h] at hs; cases hs
  · next hs => rw [h] at hs; cases hs

theorem next_of_step_done (h : s.step = (.done, s')) : s.next = (none, s') := by
  rw [next]
  split
  · next hs => rw [h] at hs; cases hs
  · next hs => rw [h] at hs; cases hs; rfl
  · next hs => rw [h] at hs; cases hs

theorem next_of_step_on (h : s.step = (.on, s')) : s.next = s'.next := by
  rw [next]
  split
  · next hs => rw [h] at hs; cases hs
  · next hs => rw [h] at hs; cases hs
  · next hs => rw [h] at hs; cases hs; rfl

theorem next_of_live_eq (h : s.live = t.live) :
    t.next.1 = s.next.1 ∧ t.next.2.live = s.next.2.live := by
  fun_induction next s generalizing t with
  | case1 s item s' hs =>
    obtain ⟨t', ht, hlive⟩ := step_of_live_eq h hs
    rw [next_of_step_item ht]
    exact ⟨rfl, hlive⟩
  | case2 s s' hs =>
    obtain ⟨t', ht, hlive⟩ := step_of_live_eq h hs
    rw [next_of_step_done ht]
    exact ⟨rfl, hlive⟩
  | case3 s s' hs ih =>
    obtain ⟨t', ht, hlive⟩ := step_of_live_eq h hs
    rw [next_of_step_on ht]
    exact ih hlive.symm

/-- **Streams that are alike in what is left answer alike.** -/
theorem answer_of_live_eq (h : s.live = t.live) (n : Nat) : s.answer n = t.answer n := by
  induction n generalizing s t with
  | zero => exact (next_of_live_eq h).1.symm
  | succ n ih => exact ih (next_of_live_eq h).2.symm

/-! ## Unions that start over -/

/-- A restart that fails would start an input over that is being read: the first input of a union,
if it can be read again and has moved. -/
def StartsOver : Stream → Prop
  | load .. | unreadable _ | rows .. | scan _ => False
  | join left .. => left.StartsOver
  | foreach input _ | distinct input _ | limit input .. => input.StartsOver
  | union first second onSecond =>
    if first.pass = .restartable then onSecond = false ∧ first ≠ first.origin ∨ second.StartsOver
    else onSecond = false ∧ first.StartsOver

/-- A stream that is at its origin in what is left is there altogether. -/
theorem eq_origin_of_live_eq (h : s.live = s.origin.live) : s = s.origin := by
  induction s with
  | load | unreadable | rows | scan => exact h
  | join left right on current ih =>
    rw [live, origin, live, join.injEq] at h
    rw [origin, ← ih h.1, h.2.2.2]
  | foreach input columns ih =>
    rw [live, origin, live, foreach.injEq] at h
    rw [origin, ← ih h.1]
  | union first second onSecond ih₁ ih₂ =>
    cases onSecond with
    | false =>
      rw [live, origin, live, union.injEq] at h
      rw [origin, ← ih₁ h.1, ← ih₂ h.2.1]
    | true =>
      rw [live, origin, live, union.injEq] at h
      cases h.2.2
  | distinct input seen ih =>
    rw [live, origin, live, distinct.injEq] at h
    rw [origin, ← ih h.1, h.2]
  | limit input count emitted ih =>
    rw [live, origin, live, limit.injEq] at h
    rw [origin, ← ih h.1, h.2.2]

/-- **A restart that fails changes what is left exactly if a union starts over.** -/
theorem live_rewind_of_single (h : s.pass = .single) :
    s.rewind.2.live = s.live ↔ ¬ s.StartsOver := by
  induction s with
  | load | unreadable | scan => exact ⟨fun _ => id, fun _ => rfl⟩
  | rows => cases h
  | join left right on current ih =>
    rw [(rewind_input_of_single left h).1, live, live, StartsOver, ← ih h, join.injEq]
    simp only [and_true]
  | foreach input columns ih =>
    rw [rewind, live, live, StartsOver, ← ih h, foreach.injEq]
    exact and_iff_left rfl
  | union first second onSecond ih₁ ih₂ =>
    obtain ⟨hfirst, hrewind⟩ | ⟨hfirst, hsecond, hrewind⟩ := rewind_union_of_single h
    · have hne := Pass.ne_restartable_of_single hfirst
      rw [hrewind, StartsOver, if_neg hne]
      cases onSecond with
      | false => simp only [live, union.injEq, ih₁ hfirst, true_and, and_true]
      | true => simp only [live, origin_rewind, Bool.true_eq_false, false_and, not_false_eq_true]
    · rw [hrewind, StartsOver, if_pos hfirst]
      cases onSecond with
      | false =>
        have hmoved : first.origin.live = first.live ↔ first = first.origin :=
          ⟨fun heq => eq_origin_of_live_eq heq.symm, fun heq => congrArg live heq.symm⟩
        simp only [live, union.injEq, hmoved, ih₂ hsecond, true_and, and_true, not_or, not_not]
      | true =>
        simp only [live, union.injEq, origin_origin, ih₂ hsecond, Bool.true_eq_false, false_and,
          false_or, true_and, and_true]
  | distinct input seen ih =>
    rw [(rewind_input_of_single input h).2.1, live, live, StartsOver, ← ih h,
      distinct.injEq]
    exact and_iff_left rfl
  | limit input count emitted ih =>
    rw [(rewind_input_of_single input h).2.2, live, live, StartsOver, ← ih h,
      limit.injEq]
    simp only [and_true]

/-! ## Where it can happen -/

/-- A union reads an input that can be read again, and behind it one that cannot. -/
def Mixed : Stream → Prop
  | load .. | unreadable _ | rows .. | scan _ => False
  | join left .. => left.Mixed
  | foreach input _ | distinct input _ | limit input .. => input.Mixed
  | union first second _ =>
    first.pass = .restartable ∧ second.pass = .single ∨ first.Mixed ∨ second.Mixed

theorem mixed_origin (s : Stream) : s.origin.Mixed ↔ s.Mixed := by
  induction s with
  | load | unreadable | rows | scan => exact Iff.rfl
  | join left right on current ih => exact ih
  | foreach input columns ih => exact ih
  | union first second onSecond ih₁ ih₂ =>
    rw [origin, Mixed, pass_origin, pass_origin, ih₁, ih₂, Mixed]
  | distinct input seen ih => exact ih
  | limit input count emitted ih => exact ih

theorem regular_origin (s : Stream) : s.origin.Regular ↔ s.Regular := by
  induction s with
  | load | unreadable | rows | scan => exact Iff.rfl
  | join left right on current ih => exact ih
  | foreach input columns ih => exact ih
  | union first second onSecond ih₁ ih₂ => rw [origin, Regular, ih₁, ih₂, Regular]
  | distinct input seen ih => exact ih
  | limit input count emitted ih => exact ih

theorem StartsOver.mixed (hs : s.StartsOver) (h : s.pass = .single) : s.Mixed := by
  induction s with
  | load | unreadable | rows | scan => exact hs
  | join left right on current ih => exact ih hs h
  | foreach input columns ih => exact ih hs h
  | union first second onSecond ih₁ ih₂ =>
    cases hfirst : first.pass with
    | single =>
      have hne := Pass.ne_restartable_of_single hfirst
      rw [StartsOver, if_neg hne] at hs
      exact Or.inr (Or.inl (ih₁ hs.2 hfirst))
    | restartable => exact Or.inl ⟨hfirst, Pass.eq_single_of_both h hfirst⟩
  | distinct input seen ih => exact ih hs h
  | limit input count emitted ih => exact ih hs h

end Stream

namespace Query

/-- A union is read whose left input can be read again while the right one cannot. -/
def Mixes (q : Query) : Prop :=
  ∃ left right, q.Pulls (.setOp .union left right) ∧ left.Repeatable ∧ ¬ right.Repeatable

theorem Mixes.of_input {q input : Query} (hinput : input ∈ q.pulled) (h : input.Mixes) :
    q.Mixes := by
  obtain ⟨left, right, hpulls, hkinds⟩ := h
  exact ⟨left, right, .input hinput hpulls, hkinds⟩

theorem mixes_of_open {env : Environment} {store : Store} {q : Query} {s : Stream}
    (hs : (q.openStream env store).outcome = .ok s) (h : s.Mixed) : q.Mixes := by
  induction q generalizing s with
  | load path schema =>
    obtain ⟨reason, -, rfl⟩ | ⟨bytes, -, rfl⟩ := opened_file hs
    · exact h.elim
    · exact h.elim
  | table rows schema => cases hs; exact h.elim
  | scan key schema =>
    obtain ⟨left, rfl⟩ := opened_relation hs
    exact h.elim
  | join left right on schema ihl ihr =>
    simp only [openStream, Access.outcome_bind_eq_ok] at hs
    obtain ⟨l, hl, r, -, rs, -, hs⟩ := hs
    cases hs
    exact .of_input (List.mem_singleton_self left) (ihl hl h)
  | foreach input columns schema ih =>
    simp only [openStream, Access.outcome_bind_eq_ok] at hs
    obtain ⟨i, hi, hs⟩ := hs
    cases hs
    exact .of_input (List.mem_singleton_self input) (ih hi h)
  | setOp op left right ihl ihr =>
    cases op with
    | union =>
      simp only [openStream, Access.outcome_bind_eq_ok] at hs
      obtain ⟨l, hl, r, hr, hs⟩ := hs
      cases hs
      rcases h with ⟨hleft, hright⟩ | h | h
      · refine ⟨left, right, .here _, (opens_of_open hl).pass.1 hleft, fun hrepeatable => ?_⟩
        rw [(opens_of_open hr).pass.2 hrepeatable] at hright
        cases hright
      · exact .of_input List.mem_cons_self (ihl hl h)
      · exact .of_input (List.mem_cons_of_mem _ (List.mem_singleton_self right)) (ihr hr h)
    | intersect | diff =>
      simp only [openStream, Access.outcome_bind_eq_ok] at hs
      obtain ⟨l, -, ls, -, r, -, rs, -, hs⟩ := hs
      cases hs
      exact h.elim
  | distinct input ih =>
    simp only [openStream, Access.outcome_bind_eq_ok] at hs
    obtain ⟨i, hi, hs⟩ := hs
    cases hs
    exact .of_input (List.mem_singleton_self input) (ih hi h)
  | limit input count ih =>
    simp only [openStream, Access.outcome_bind_eq_ok] at hs
    obtain ⟨i, hi, hs⟩ := hs
    cases hs
    exact .of_input (List.mem_singleton_self input) (ih hi h)

end Query

namespace Database

/-- **A restart that fails.**  What comes behind it is the list of revived items, so the rest of the
stream is what it was exactly if these are the items that were left.  That is so unless a union
starts over, and no union does if none is read whose left input can be read again while its right
one cannot. -/
theorem failed_restart_keeps_rest {env : Environment} {db : Database} {q : Query} {r : Result}
    (h : (db.evaluate env (.query q)).1 = .ok r) {s : Stream} (hs : r.stream.Reaches s) {e : Error}
    (he : s.rewind.1 = .error e) :
    (q.RegularFiles env →
      (∀ n, s.rewind.2.answer n = s.revived[n]?) ∧
        ((∀ n, s.rewind.2.answer n = s.answer n) ↔ s.revived = s.items)) ∧
      (¬ s.StartsOver → ∀ n, s.rewind.2.answer n = s.answer n) ∧
      (¬ q.Mixes → ¬ s.StartsOver) := by
  have hopen := open_of_evaluate h
  have hsingle : s.pass = .single := by
    cases hpass : s.pass with
    | single => rfl
    | restartable => rw [Stream.rewind_of_restartable hpass] at he; cases he
  refine ⟨fun hfiles => ?_, fun hkeeps => ?_, fun hmixes hover => ?_⟩
  · have hregular : s.Regular := by
      rw [← Stream.regular_origin, hs.origin, Stream.regular_origin]
      exact Query.regular_openStream hfiles hopen
    have hrewound : s.rewind.2.Regular := by
      rwa [← Stream.regular_origin, Stream.origin_rewind, Stream.regular_origin]
    have hanswers (n : Nat) : s.rewind.2.answer n = s.revived[n]? := by
      rw [Stream.answer_eq_getElem? hrewound, Stream.items_rewind_of_single hsingle]
    refine ⟨hanswers, ?_⟩
    simp only [hanswers, Stream.answer_eq_getElem? hregular]
    exact List.ext_getElem?_iff.symm
  · exact Stream.answer_of_live_eq ((Stream.live_rewind_of_single hsingle).2 hkeeps)
  · refine hmixes (Query.mixes_of_open hopen ?_)
    rw [← Stream.mixed_origin, ← hs.origin, Stream.mixed_origin]
    exact hover.mixed hsingle

/-! ### Rows in front of a file -/

/-- A single file `f` with the lines `3` and `4`. -/
def twoLines : Environment where
  files path :=
    if path = "f" then .content ⟨#[51, 10, 52, 10]⟩ else .refused FileFault.notFound.reason
  dataDir := none

/-- The rows `1` and `2`, then those of the file. -/
def rowsThenFile : Query :=
  .setOp .union (.table [⟨[.int 1]⟩, ⟨[.int 2]⟩] (column "n")) (.load "f" (column "n"))

/-- The stream of the query when the rows that are left are `left`. -/
def rowsThenFileStream (left : List Tuple) : Stream :=
  .union (.rows [⟨[.int 1]⟩, ⟨[.int 2]⟩] left)
    (.load "f" (column "n") 0 [some "3", some "4"]) false

theorem evaluate_rowsThenFile : (Database.fresh.evaluate twoLines (.query rowsThenFile)).1
    = .ok ⟨column "n", rowsThenFileStream [⟨[.int 1]⟩, ⟨[.int 2]⟩]⟩ := by
  have hopen : (rowsThenFile.openStream twoLines Database.fresh.store).outcome
      = .ok (rowsThenFileStream [⟨[.int 1]⟩, ⟨[.int 2]⟩]) := by decide +kernel
  show Except.map _ (rowsThenFile.openStream twoLines Database.fresh.store).outcome = _
  rw [hopen]
  rfl

theorem next_rowsThenFileStream (t : Tuple) (left : List Tuple) :
    (rowsThenFileStream (t :: left)).next = (some (.ok t), rowsThenFileStream left) :=
  Stream.next_of_step_item rfl

/-- Once the file is being read a failed restart starts the rows again, and nothing of it shows. -/
theorem failed_restart_keeps_rest_inFile :
    ∃ r, (Database.fresh.evaluate twoLines (.query rowsThenFile)).1 = .ok r ∧
      let s := r.stream.next.2.next.2.next.2
      r.stream.Reaches s ∧ s.rewind.1 = .error (.notRestartable "LOAD") ∧ s.rewind.2 ≠ s ∧
        rowsThenFile.RegularFiles twoLines ∧ ¬ s.StartsOver ∧
        (∀ n, s.rewind.2.answer n = s.answer n) ∧
        ∀ n, s.rewind.2.answer n = [.ok ⟨[.int 4]⟩][n]? := by
  refine ⟨_, evaluate_rowsThenFile, ?_⟩
  intro s
  have hreaches : (rowsThenFileStream [⟨[.int 1]⟩, ⟨[.int 2]⟩]).Reaches s :=
    .next (.next (.next .here))
  have hs : s = .union (.rows [⟨[.int 1]⟩, ⟨[.int 2]⟩] [])
      (.load "f" (column "n") 1 [some "4"]) true := by
    have hthird : (rowsThenFileStream []).next.2 = .union (.rows [⟨[.int 1]⟩, ⟨[.int 2]⟩] [])
        (.load "f" (column "n") 1 [some "4"]) true := by
      have hmove : (Stream.union (.rows [⟨[.int 1]⟩, ⟨[.int 2]⟩] [])
          (.load "f" (column "n") 0 [some "3", some "4"]) true).step
          = (.item (.ok ⟨[.int 3]⟩), .union (.rows [⟨[.int 1]⟩, ⟨[.int 2]⟩] [])
            (.load "f" (column "n") 1 [some "4"]) true) := by rfl
      rw [Stream.next_of_step_on (by rfl), Stream.next_of_step_item hmove]
    show (rowsThenFileStream [⟨[.int 1]⟩, ⟨[.int 2]⟩]).next.2.next.2.next.2 = _
    rw [next_rowsThenFileStream, next_rowsThenFileStream, hthird]
  have hfiles : rowsThenFile.RegularFiles twoLines := by
    intro path hpath reason
    obtain rfl : path = "f" := by simpa [rowsThenFile, Query.loads] using hpath
    intro h
    cases h
  have hrewind : s.rewind.1 = .error (.notRestartable "LOAD") := by rw [hs]; rfl
  have hkeeps : ¬ s.StartsOver := by rw [hs]; simp [Stream.StartsOver, Stream.pass]
  obtain ⟨hall, hrest, -⟩ := failed_restart_keeps_rest evaluate_rowsThenFile hreaches hrewind
  have hrevived : s.revived = [.ok ⟨[.int 4]⟩] := by rw [hs]; decide +kernel
  have hmoved : s.rewind.2 ≠ s := by rw [hs]; decide +kernel
  exact ⟨hreaches, hrewind, hmoved, hfiles, hkeeps, hrest hkeeps, hrevived ▸ (hall hfiles).1⟩

/-- While the rows are being read it gives out again what was taken. -/
theorem failed_restart_repeats :
    ∃ r, (Database.fresh.evaluate twoLines (.query rowsThenFile)).1 = .ok r ∧
      let s := r.stream.next.2
      r.stream.next.1 = some (.ok ⟨[.int 1]⟩) ∧ s.rewind.1 = .error (.notRestartable "LOAD") ∧
        (∀ n, s.answer n = [.ok ⟨[.int 2]⟩, .ok ⟨[.int 3]⟩, .ok ⟨[.int 4]⟩][n]?) ∧
        ∀ n, s.rewind.2.answer n
          = [.ok ⟨[.int 1]⟩, .ok ⟨[.int 2]⟩, .ok ⟨[.int 3]⟩, .ok ⟨[.int 4]⟩][n]? := by
  refine ⟨_, evaluate_rowsThenFile, ?_⟩
  intro s
  have hs : s = rowsThenFileStream [⟨[.int 2]⟩] :=
    congrArg Prod.snd (next_rowsThenFileStream ⟨[.int 1]⟩ [⟨[.int 2]⟩])
  have hback : s.rewind = (.error (.notRestartable "LOAD"),
      rowsThenFileStream [⟨[.int 1]⟩, ⟨[.int 2]⟩]) := by rw [hs]; rfl
  have hanswers (left : List Tuple) (n : Nat) : (rowsThenFileStream left).answer n
      = (rowsThenFileStream left).items[n]? :=
    Stream.answer_eq_getElem? (s := rowsThenFileStream left) ⟨trivial, trivial⟩ n
  have hleft : (rowsThenFileStream [⟨[.int 2]⟩]).items
      = [.ok ⟨[.int 2]⟩, .ok ⟨[.int 3]⟩, .ok ⟨[.int 4]⟩] := by decide +kernel
  have hrepeated : (rowsThenFileStream [⟨[.int 1]⟩, ⟨[.int 2]⟩]).items
      = [.ok ⟨[.int 1]⟩, .ok ⟨[.int 2]⟩, .ok ⟨[.int 3]⟩, .ok ⟨[.int 4]⟩] := by decide +kernel
  refine ⟨congrArg Prod.fst (next_rowsThenFileStream ⟨[.int 1]⟩ [⟨[.int 2]⟩]), by rw [hback],
    fun n => ?_, fun n => ?_⟩
  · rw [hs, hanswers, hleft]
  · rw [hback, hanswers, hrepeated]

end Database

end BagQuery
