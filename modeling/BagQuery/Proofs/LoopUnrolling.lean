import BagQuery.Proofs.FailedRuns
import BagQuery.Proofs.PassBounds

/-!
# Loops unrolled

A loop is its body, written out as often as there are passes (`Program.times`), with the condition
looked at behind each pass.  The tests read the store, which the body written out does not.  So the
two are compared up to the traffic of their stores, which no statement looks at
(`Statement.sameContents`).  The passes are counted in the trace: a step at the place of a loop with
one more number is a test of this loop (`Step.testsAt`).

* `Session.loop_of_goesOn`: a loop whose first passes ask for another goes on as the body written
  out and the loop behind it.
* `Session.loop_last`: the pass that asks for no other is the last one.
-/

namespace BagQuery

/-! ## Traffic -/

namespace Session.SameContents

variable {s t u : Session}

theorem trans (h : s.SameContents t) (h' : t.SameContents u) : s.SameContents u :=
  ⟨h.toSameRelations.trans h'.toSameRelations, h.materialized.trans h'.materialized⟩

theorem of_reading (s : Session) (n : Nat) : (s.reading n).SameContents s := ⟨⟨rfl, rfl⟩, rfl⟩

/-- A test has the same verdict in both. -/
theorem test (h : s.SameContents t) (c : Settings) (condition : Expr) (finished : Nat) :
    ∃ verdict s' t', s'.SameContents t' ∧ s.test c condition finished = (verdict, s') ∧
      t.test c condition finished = (verdict, t') := by
  obtain ⟨houtcome, hsession⟩ := h.tuplesOf c condition
  unfold Session.test
  rw [houtcome]
  exact ⟨_, _, _, hsession, rfl, rfl⟩

end Session.SameContents

namespace Outcome.SameContents

variable {o o' o'' : Outcome}

theorem refl (o : Outcome) : o.SameContents o := ⟨.refl _, rfl, rfl⟩

theorem trans (h : o.SameContents o') (h' : o'.SameContents o'') : o.SameContents o'' :=
  ⟨h.session.trans h'.session, h.outputs.trans h'.outputs, h.ending.trans h'.ending⟩

theorem andThen (h : o.SameContents o') {next next' : Session → Outcome}
    (hnext : ∀ s s', s.SameContents s' → (next s).SameContents (next' s')) :
    (o.andThen next).SameContents (o'.andThen next') := by
  rw [← related_sameContents_iff] at h ⊢
  exact h.andThen fun s s' hs => related_sameContents_iff.2 (hnext s s' hs)

end Outcome.SameContents

section Traffic

variable {c : Settings} {body : Session → Outcome}

/-- Passes of a loop, if the body goes on alike. -/
theorem Session.loop_sameContents
    (hbody : ∀ s t, s.SameContents t → (body s).SameContents (body t)) (condition : Expr)
    (passes finished : Nat) {s t : Session} (h : s.SameContents t) :
    (loop c body condition passes finished s).SameContents
      (loop c body condition passes finished t) := by
  rw [← Outcome.related_sameContents_iff]
  exact (SameContents.simulation c).loop
    (fun s t hs => Outcome.related_sameContents_iff.2 (hbody s t hs)) condition passes finished h

/-- **Statements go on alike where the traffic was another**, loops among them. -/
theorem Statement.sameContents (c : Settings) (passes : Nat) :
    (∀ (st : Statement) (s t : Session), s.SameContents t →
      (st.run c passes s).SameContents (st.run c passes t)) ∧
    ∀ (program : List Statement) (s t : Session), s.SameContents t →
      (runAll c passes program s).SameContents (runAll c passes program t) := by
  obtain ⟨hstatement, hprogram⟩ := (Session.SameContents.simulation c).statements passes
  exact ⟨fun st s t h => Outcome.related_sameContents_iff.1 (hstatement st s t h),
    fun program s t h => Outcome.related_sameContents_iff.1 (hprogram program s t h)⟩

end Traffic

/-! ## Tests in a trace -/

/-- Steps of a statement are at its place or inside of it. -/
theorem Statement.prefix_of_mem_trace (c : Settings) (passes : Nat) :
    (∀ (st : Statement) (place : List Nat) (s : Session),
      ∀ step ∈ st.trace c passes place s, place <+: step.place) ∧
    ∀ (program : List Statement) (place : List Nat) (index : Nat) (s : Session),
      ∀ step ∈ traceAll c passes place index program s, ∃ i, place ++ [i] <+: step.place := by
  apply Statement.induction
  case simple =>
    intro st hst place s step hstep
    rw [trace_simple hst] at hstep
    obtain rfl := List.mem_singleton.1 hstep
    exact List.prefix_rfl
  case doWhile =>
    intro body condition ih place s
    refine Session.forall_mem_loopTrace (fun pass s step hstep => ?_) ?_ passes 0 s
    · obtain ⟨i, hi⟩ := ih (place ++ [pass]) 0 s step hstep
      exact ((List.prefix_append _ _).trans (List.prefix_append _ _)).trans hi
    · intro finished s
      exact List.prefix_append _ _
  case nil =>
    intro place index s step hstep
    cases hstep
  case cons =>
    intro st rest hst hrest place index s step hstep
    rcases List.mem_append.1 hstep with hstep | hstep
    · exact ⟨index, hst _ s step hstep⟩
    · exact hrest place (index + 1) _ step (Outcome.mem_of_mem_stepsThen hstep)

/-- The tests of the loop at a place: the loops inside of it have longer places. -/
def Step.testsAt (place : List Nat) (steps : List Step) : List Step :=
  steps.filter fun step => decide (step.place.dropLast = place)

theorem Step.testsAt_body (c : Settings) (passes : Nat) (body : Program) (place : List Nat)
    (pass : Nat) (s : Session) :
    testsAt place (Statement.traceAll c passes (place ++ [pass]) 0 body s) = [] := by
  refine List.filter_eq_nil_iff.2 fun step hstep => ?_
  obtain ⟨i, hi⟩ := (Statement.prefix_of_mem_trace c passes).2 body _ 0 s step hstep
  have hlength := hi.length_le
  rw [decide_eq_true_iff]
  intro hplace
  have hdrop := congrArg List.length hplace
  simp only [List.length_append, List.length_singleton, List.length_dropLast] at hlength hdrop
  omega

/-- The body of a loop written out. -/
def Program.times (k : Nat) (body : Program) : Program := (List.replicate k body).flatten

theorem Statement.runAll_append (c : Settings) (passes : Nat) (xs ys : List Statement)
    (s : Session) :
    runAll c passes (xs ++ ys) s = (runAll c passes xs s).andThen (runAll c passes ys) := by
  induction xs generalizing s with
  | nil => rfl
  | cons st xs ih =>
    rw [List.cons_append, runAll_cons, runAll_cons, Outcome.andThen_assoc]
    congr 1
    funext s
    exact ih s

namespace Program

variable {c : Settings} {passes : Nat} {body : Program} {s : Session}

theorem run_times_add (c : Settings) (passes : Nat) (body : Program) (m n : Nat) (s : Session) :
    Program.run c passes (body.times (m + n)) s =
      (Program.run c passes (body.times m) s).andThen (Program.run c passes (body.times n)) := by
  have hflatten : body.times (m + n) = body.times m ++ body.times n := by
    rw [times, List.replicate_add, List.flatten_append]
    rfl
  rw [hflatten]
  exact Statement.runAll_append c passes _ _ s

theorem run_times_succ (c : Settings) (passes : Nat) (body : Program) (n : Nat) (s : Session) :
    Program.run c passes (body.times (n + 1)) s =
      (Program.run c passes (body.times n) s).andThen (Statement.runAll c passes body) := by
  rw [run_times_add]
  have hone : body.times 1 = body := List.append_nil body
  rw [hone]
  rfl

theorem ending_times_of_le {m n : Nat} (hle : m ≤ n)
    (h : (Program.run c passes (body.times n) s).ending ≠ .unfinished) :
    (Program.run c passes (body.times m) s).ending ≠ .unfinished := by
  obtain ⟨k, rfl⟩ := Nat.exists_eq_add_of_le hle
  rw [run_times_add] at h
  exact (Outcome.of_andThen_ne_unfinished h).1

end Program

namespace Session

variable {c : Settings} {passes : Nat} {body : Program} {condition : Expr} {s t : Session}

/-- The tests that a loop makes at a place; `p` bounds its own passes, `passes` those of the loops
inside of it. -/
def tests (c : Settings) (passes : Nat) (body : Program) (condition : Expr) (place : List Nat)
    (p finished : Nat) (s : Session) : List Step :=
  Step.testsAt place (loopTrace c (Statement.runAll c passes body)
    (fun place => Statement.traceAll c passes place 0 body) condition place p finished s)

/-- A pass whose body is completed makes a test. -/
theorem tests_succ (c : Settings) (passes : Nat) (body : Program) (condition : Expr)
    (place : List Nat) (p finished : Nat) (s : Session) :
    tests c passes body condition place (p + 1) finished s =
      (Statement.runAll c passes body s).stepsThen fun s =>
        ⟨place ++ [finished + 1], .test condition finished, s⟩ ::
          match s.test c condition finished with
          | (.ok true, s) => tests c passes body condition place p (finished + 1) s
          | _ => [] := by
  have hbody := Step.testsAt_body c passes body place (finished + 1) s
  rw [tests, loopTrace]
  unfold Step.testsAt at *
  rw [List.filter_append, hbody, List.nil_append]
  unfold Outcome.stepsThen
  split
  · rw [List.filter_cons_of_pos (by simp)]
    congr 1
    rcases (Statement.runAll c passes body s).session.test_cases c condition finished with
      ⟨e, n, h⟩ | ⟨n, h⟩ | ⟨n, h⟩ <;> rw [h] <;> rfl
  · rfl

/-- **A loop numbers its tests from zero, whenever it is entered.** -/
theorem actions_tests (c : Settings) (passes : Nat) (body : Program) (condition : Expr)
    (place : List Nat) (p finished : Nat) (s : Session) :
    ∃ k, (tests c passes body condition place p finished s).map Step.action =
      (List.range' finished k).map (Action.test condition) := by
  induction p generalizing finished s with
  | zero => exact ⟨0, rfl⟩
  | succ p ih =>
    rw [tests_succ]
    by_cases hend : (Statement.runAll c passes body s).ending = .completed
    · rw [Outcome.stepsThen_of_completed hend]
      rcases (Statement.runAll c passes body s).session.test_cases c condition finished with
        ⟨e, n, h⟩ | ⟨n, h⟩ | ⟨n, h⟩
      · rw [h]
        exact ⟨1, rfl⟩
      · rw [h]
        exact ⟨1, rfl⟩
      · rw [h]
        obtain ⟨k, hk⟩ := ih (finished + 1) ((Statement.runAll c passes body s).session.reading n)
        refine ⟨k + 1, ?_⟩
        rw [List.map_cons, hk]
        rfl
    · rw [Outcome.stepsThen_of_not_completed hend]
      exact ⟨0, rfl⟩

theorem length_tests_congr (c : Settings) (passes : Nat) (body : Program) (condition : Expr)
    (place : List Nat) (p finished : Nat) {s t : Session} (h : s.SameContents t) :
    (tests c passes body condition place p finished s).length =
      (tests c passes body condition place p finished t).length := by
  induction p generalizing finished s t with
  | zero => rfl
  | succ p ih =>
    have hbody := (Statement.sameContents c passes).2 body s t h
    rw [tests_succ, tests_succ]
    by_cases hend : (Statement.runAll c passes body s).ending = .completed
    · have hend' := hbody.ending.symm.trans hend
      obtain ⟨verdict, s', t', hsame, hs, ht⟩ := hbody.session.test c condition finished
      rw [Outcome.stepsThen_of_completed hend, Outcome.stepsThen_of_completed hend', hs, ht]
      cases verdict with
      | error e => rfl
      | ok again =>
        cases again with
        | false => rfl
        | true => exact congrArg (· + 1) (ih (finished + 1) hsame)
    · have hend' : (Statement.runAll c passes body t).ending ≠ .completed :=
        fun h' => hend (hbody.ending.trans h')
      rw [Outcome.stepsThen_of_not_completed hend, Outcome.stepsThen_of_not_completed hend']

/-! ## Passes -/

/-- The first `n` passes are completed, and each of them asks for another. -/
def GoesOn (c : Settings) (passes : Nat) (body : Program) (condition : Expr) (s : Session)
    (n : Nat) : Prop :=
  ∀ j < n, (Program.run c passes (body.times (j + 1)) s).ending = .completed ∧
    ((Program.run c passes (body.times (j + 1)) s).session.test c condition j).1 = .ok true

/-- Pass number `n + 1` is the last one: it is not completed, or asks for no other. -/
def Last (c : Settings) (passes : Nat) (body : Program) (condition : Expr) (s : Session)
    (n : Nat) : Prop :=
  (Program.run c passes (body.times (n + 1)) s).ending = .completed →
    ((Program.run c passes (body.times (n + 1)) s).session.test c condition n).1 ≠ .ok true

theorem GoesOn.completed {n : Nat} (h : s.GoesOn c passes body condition n) :
    (Program.run c passes (body.times n) s).ending = .completed := by
  cases n with
  | zero => rfl
  | succ n => exact (h n (Nat.lt_succ_self n)).1

theorem GoesOn.mono {m n : Nat} (h : s.GoesOn c passes body condition n) (hle : m ≤ n) :
    s.GoesOn c passes body condition m := fun j hj => h j (Nat.lt_of_lt_of_le hj hle)

/-- The test that asks for another pass reads at most. -/
theorem GoesOn.test {n : Nat} (h : s.GoesOn c passes body condition (n + 1)) :
    ∃ m, (Program.run c passes (body.times (n + 1)) s).session.test c condition n =
      (.ok true, (Program.run c passes (body.times (n + 1)) s).session.reading m) := by
  obtain ⟨m, hm⟩ := test_reads c condition n (Program.run c passes (body.times (n + 1)) s).session
  exact ⟨m, Prod.ext (h n (Nat.lt_succ_self n)).2 hm⟩

/-- One more pass. -/
theorem runAll_of_completed {n : Nat}
    (h : (Program.run c passes (body.times n) s).ending = .completed) :
    (Statement.runAll c passes body (Program.run c passes (body.times n) s).session).ending =
        (Program.run c passes (body.times (n + 1)) s).ending ∧
      (Statement.runAll c passes body (Program.run c passes (body.times n) s).session).session =
        (Program.run c passes (body.times (n + 1)) s).session := by
  rw [Program.run_times_succ, Outcome.andThen_of_completed h]
  exact ⟨rfl, rfl⟩

/-- All passes go on, or there is a last one. -/
theorem goesOn_or_last (c : Settings) (passes : Nat) (body : Program) (condition : Expr)
    (s : Session) (p : Nat) : s.GoesOn c passes body condition p ∨
      ∃ n < p, s.GoesOn c passes body condition n ∧ s.Last c passes body condition n := by
  induction p with
  | zero => exact Or.inl nofun
  | succ p ih =>
    rcases ih with h | ⟨n, hn, h⟩
    · by_cases hlast : s.Last c passes body condition p
      · exact Or.inr ⟨p, Nat.lt_succ_self p, h, hlast⟩
      · left
        unfold Last at hlast
        push Not at hlast
        intro j hj
        rcases Nat.lt_succ_iff_lt_or_eq.1 hj with hj | rfl
        · exact h j hj
        · exact hlast
    · exact Or.inr ⟨n, Nat.lt_succ_of_lt hn, h⟩

/-- What comes behind the body in a pass that is not the first. -/
theorem loop_andThen_times (c : Settings) (passes : Nat) (body : Program) (condition : Expr)
    (p n : Nat) (s : Session) :
    (Program.run c passes (body.times n) s).andThen
        (loop c (Statement.runAll c passes body) condition (p + 1) n) =
      (Program.run c passes (body.times (n + 1)) s).andThen fun s =>
        match s.test c condition n with
        | (.error e, s) => .failed e s
        | (.ok false, s) => .completed s
        | (.ok true, s) => loop c (Statement.runAll c passes body) condition p (n + 1) s := by
  rw [Program.run_times_succ, Outcome.andThen_assoc]
  congr 1
  funext s
  exact loop_succ c _ condition p n s

/-- **A loop whose first passes ask for another is the body written out, and the loop behind
it.** -/
theorem loop_of_goesOn {n : Nat} (h : s.GoesOn c passes body condition n) (p : Nat) :
    (loop c (Statement.runAll c passes body) condition (p + n) 0 s).SameContents
      ((Program.run c passes (body.times n) s).andThen
        (loop c (Statement.runAll c passes body) condition p n)) := by
  induction n generalizing p with
  | zero => exact .refl _
  | succ n ih =>
    obtain ⟨m, hm⟩ := h.test
    have hbefore := ih (h.mono (Nat.le_succ n)) (p + 1)
    rw [loop_andThen_times, Nat.add_right_comm, Outcome.andThen_of_completed h.completed] at hbefore
    rw [Outcome.andThen_of_completed h.completed]
    refine hbefore.trans ?_
    dsimp only
    rw [hm]
    have hrest := loop_sameContents (c := c) ((Statement.sameContents c passes).2 body) condition p
      (n + 1) (.of_reading (Program.run c passes (body.times (n + 1)) s).session m)
    exact ⟨hrest.session, congrArg (_ ++ ·) hrest.outputs, hrest.ending⟩

theorem length_tests_of_goesOn {n : Nat} (h : s.GoesOn c passes body condition n)
    (place : List Nat) (p : Nat) :
    (tests c passes body condition place (p + n) 0 s).length = n +
      (tests c passes body condition place p n
        (Program.run c passes (body.times n) s).session).length := by
  induction n generalizing p with
  | zero => exact (Nat.zero_add _).symm
  | succ n ih =>
    obtain ⟨m, hm⟩ := h.test
    have hgoes := h.mono (Nat.le_succ n)
    obtain ⟨hending, hsession⟩ := runAll_of_completed hgoes.completed
    have hrest := length_tests_congr c passes body condition place p (n + 1)
      (.of_reading (Program.run c passes (body.times (n + 1)) s).session m)
    have hlength : p + (n + 1) = p + 1 + n := by omega
    rw [hlength, ih hgoes (p + 1), tests_succ,
      Outcome.stepsThen_of_completed (hending.trans h.completed), hsession, hm, List.length_cons,
      hrest]
    show n + (_ + 1) = n + 1 + _
    omega

/-- **The last pass**: the body written out and a test behind it. -/
theorem loop_last {n : Nat} (h : s.GoesOn c passes body condition n)
    (hlast : s.Last c passes body condition n) (p : Nat) :
    (loop c (Statement.runAll c passes body) condition (p + 1 + n) 0 s).SameContents
      ((Program.run c passes (body.times (n + 1)) s).andThen (testOutcome c condition n)) := by
  have hloop := loop_of_goesOn h (p + 1)
  rw [loop_andThen_times] at hloop
  refine hloop.trans ?_
  by_cases hend : (Program.run c passes (body.times (n + 1)) s).ending = .completed
  · rw [Outcome.andThen_of_completed hend, Outcome.andThen_of_completed hend]
    have hno := hlast hend
    unfold testOutcome
    rcases (Program.run c passes (body.times (n + 1)) s).session.test_cases c condition n with
      ⟨e, m, h⟩ | ⟨m, h⟩ | ⟨m, h⟩
    · rw [h]
      exact .refl _
    · rw [h]
      exact .refl _
    · exact absurd (congrArg Prod.fst h) hno
  · rw [Outcome.andThen_of_not_completed hend, Outcome.andThen_of_not_completed hend]
    exact .refl _

theorem length_tests_last {n : Nat} (h : s.GoesOn c passes body condition n)
    (hlast : s.Last c passes body condition n) (place : List Nat) (p : Nat) :
    (tests c passes body condition place (p + 1 + n) 0 s).length =
      if (Program.run c passes (body.times (n + 1)) s).ending = .completed then n + 1 else n := by
  obtain ⟨hending, hsession⟩ := runAll_of_completed h.completed
  rw [length_tests_of_goesOn h place (p + 1), tests_succ]
  by_cases hend : (Program.run c passes (body.times (n + 1)) s).ending = .completed
  · have hno := hlast hend
    rw [Outcome.stepsThen_of_completed (hending.trans hend), hsession, if_pos hend, List.length_cons]
    rcases (Program.run c passes (body.times (n + 1)) s).session.test_cases c condition n with
      ⟨e, m, h⟩ | ⟨m, h⟩ | ⟨m, h⟩
    · rw [h]
      rfl
    · rw [h]
      rfl
    · exact absurd (congrArg Prod.fst h) hno
  · rw [Outcome.stepsThen_of_not_completed (fun h' => hend (hending.symm.trans h')), if_neg hend]
    rfl

/-- A loop that ends has a last pass. -/
theorem exists_last {p : Nat}
    (h : (loop c (Statement.runAll c passes body) condition p 0 s).ending ≠ .unfinished) :
    ∃ n < p, s.GoesOn c passes body condition n ∧ s.Last c passes body condition n := by
  refine (goesOn_or_last c passes body condition s p).resolve_left fun hgoes => ?_
  have hloop := loop_of_goesOn hgoes 0
  rw [Nat.zero_add, Outcome.andThen_of_completed hgoes.completed] at hloop
  exact h hloop.ending

end Session

end BagQuery
