import BagQuery.Proofs.Attempt
import BagQuery.Proofs.WriteLog

/-!
# Enough passes

A run is given a bound on the passes of each loop, and does not end if that was not enough.  The
bound is not part of the language: a run that ends goes through the same steps to the same end
under any larger bound (`Statement.run_mono`), so one can say that a program ends with an outcome
and leave the bound out (`Program.Ends`).

With an iteration limit there is a bound that is always enough, and every program ends
(`Program.ending_ne_unfinished`).
-/

namespace BagQuery

namespace Outcome

theorem andThen_assoc (o : Outcome) (f g : Session → Outcome) :
    (o.andThen f).andThen g = o.andThen fun s => (f s).andThen g := by
  by_cases h : o.ending = .completed
  · rw [andThen_of_completed h, andThen_of_completed h]
    by_cases hf : (f o.session).ending = .completed
    · rw [andThen_of_completed (by exact hf), andThen_of_completed hf, List.append_assoc]
    · rw [andThen_of_not_completed (by exact hf), andThen_of_not_completed hf]
  · have h' : (o.andThen f).ending ≠ .completed := by
      rw [andThen_of_not_completed h]
      exact h
    rw [andThen_of_not_completed h', andThen_of_not_completed h, andThen_of_not_completed h]

/-- What ends has parts that end. -/
theorem of_andThen_ne_unfinished {o : Outcome} {next : Session → Outcome}
    (h : (o.andThen next).ending ≠ .unfinished) :
    o.ending ≠ .unfinished ∧ (o.ending = .completed → (next o.session).ending ≠ .unfinished) := by
  by_cases ho : o.ending = .completed
  · rw [andThen_of_completed ho] at h
    refine ⟨?_, fun _ => h⟩
    rw [ho]
    exact nofun
  · rw [andThen_of_not_completed ho] at h
    exact ⟨h, fun hc => absurd hc ho⟩

/-- Only what comes behind a completed run counts. -/
theorem andThen_congr {o : Outcome} {next next' : Session → Outcome}
    (h : o.ending = .completed → next' o.session = next o.session) :
    o.andThen next' = o.andThen next := by
  by_cases ho : o.ending = .completed
  · rw [andThen_of_completed ho, andThen_of_completed ho, h ho]
  · rw [andThen_of_not_completed ho, andThen_of_not_completed ho]

theorem stepsThen_congr {o : Outcome} {more more' : Session → List Step}
    (h : o.ending = .completed → more' o.session = more o.session) :
    o.stepsThen more' = o.stepsThen more := by
  by_cases ho : o.ending = .completed
  · rw [stepsThen_of_completed ho, stepsThen_of_completed ho, h ho]
  · rw [stepsThen_of_not_completed ho, stepsThen_of_not_completed ho]

end Outcome

/-! ## More passes -/

/-- Passes of a loop, if the body goes the same way under a larger bound. -/
theorem Session.loop_mono {c : Settings} {body body' : Session → Outcome}
    {bodyTrace bodyTrace' : List Nat → Session → List Step}
    (hbody : ∀ place s, (body s).ending ≠ .unfinished →
      body' s = body s ∧ bodyTrace' place s = bodyTrace place s)
    (condition : Expr) (place : List Nat) {passes passes' : Nat} (hle : passes ≤ passes')
    (finished : Nat) (s : Session)
    (h : (loop c body condition passes finished s).ending ≠ .unfinished) :
    loop c body' condition passes' finished s = loop c body condition passes finished s ∧
      loopTrace c body' bodyTrace' condition place passes' finished s =
        loopTrace c body bodyTrace condition place passes finished s := by
  induction passes generalizing passes' finished s with
  | zero => exact absurd rfl h
  | succ passes ih =>
    obtain ⟨passes', rfl⟩ : ∃ n, passes' = n + 1 := ⟨passes' - 1, by omega⟩
    rw [loop_succ] at h
    obtain ⟨hfirst, hnext⟩ := Outcome.of_andThen_ne_unfinished h
    obtain ⟨hrun, htrace⟩ := hbody (place ++ [finished + 1]) s hfirst
    rw [loop_succ, loop_succ, loopTrace, loopTrace, hrun, htrace]
    -- behind the body both go on with the same verdict
    have hrest : (body s).ending = .completed → ∀ s',
        (body s).session.test c condition finished = (.ok true, s') →
          loop c body' condition passes' (finished + 1) s' =
              loop c body condition passes (finished + 1) s' ∧
            loopTrace c body' bodyTrace' condition place passes' (finished + 1) s' =
              loopTrace c body bodyTrace condition place passes (finished + 1) s' := by
      intro hend s' htest
      have hloop := hnext hend
      rw [htest] at hloop
      exact ih (by omega) (finished + 1) s' hloop
    constructor
    · refine Outcome.andThen_congr fun hend => ?_
      rcases (body s).session.test_cases c condition finished with ⟨e, n, h⟩ | ⟨n, h⟩ | ⟨n, h⟩
      · rw [h]
      · rw [h]
      · rw [h]
        exact (hrest hend _ h).1
    · congr 1
      refine Outcome.stepsThen_congr fun hend => ?_
      rcases (body s).session.test_cases c condition finished with ⟨e, n, h⟩ | ⟨n, h⟩ | ⟨n, h⟩
      · rw [h]
      · rw [h]
      · rw [h]
        exact congrArg _ (hrest hend _ h).2

/-- **A run that ends is the same run under a larger bound.** -/
theorem Statement.run_mono (c : Settings) {passes passes' : Nat} (hle : passes ≤ passes') :
    (∀ (st : Statement) (place : List Nat) (s : Session),
      (st.run c passes s).ending ≠ .unfinished →
        st.run c passes' s = st.run c passes s ∧
          st.trace c passes' place s = st.trace c passes place s) ∧
    ∀ (program : List Statement) (place : List Nat) (index : Nat) (s : Session),
      (runAll c passes program s).ending ≠ .unfinished →
        runAll c passes' program s = runAll c passes program s ∧
          traceAll c passes' place index program s =
            traceAll c passes place index program s := by
  apply Statement.induction
  case simple =>
    intro st hst place s _
    rw [run_simple hst c passes', run_simple hst c passes, trace_simple hst, trace_simple hst]
    exact ⟨rfl, rfl⟩
  case doWhile =>
    intro body condition ih place s h
    rw [run_doWhile] at h ⊢
    rw [run_doWhile]
    exact Session.loop_mono (fun place s => ih place 0 s) condition place hle 0 s h
  case nil =>
    intro place index s _
    exact ⟨rfl, rfl⟩
  case cons =>
    intro st rest hst hrest place index s h
    rw [runAll_cons] at h
    obtain ⟨hfirst, hnext⟩ := Outcome.of_andThen_ne_unfinished h
    obtain ⟨hrun, htrace⟩ := hst (place ++ [index]) s hfirst
    rw [runAll_cons, runAll_cons, traceAll, traceAll, hrun]
    dsimp only
    rw [htrace, hrun]
    constructor
    · exact Outcome.andThen_congr fun hend => (hrest place (index + 1) _ (hnext hend)).1
    · congr 1
      exact Outcome.stepsThen_congr fun hend => (hrest place (index + 1) _ (hnext hend)).2

/-- The program ends with the outcome, under any bound that is enough. -/
def Program.Ends (c : Settings) (program : Program) (s : Session) (o : Outcome) : Prop :=
  o.ending ≠ .unfinished ∧ ∃ passes, program.run c passes s = o

namespace Program

variable {c : Settings} {program : Program} {s : Session} {o o' : Outcome}

theorem run_mono {passes passes' : Nat} (hle : passes ≤ passes')
    (h : (program.run c passes s).ending ≠ .unfinished) :
    program.run c passes' s = program.run c passes s :=
  ((Statement.run_mono c hle).2 program [] 0 s h).1

/-- **A program ends in one way only.** -/
theorem Ends.unique (h : program.Ends c s o) (h' : program.Ends c s o') : o = o' := by
  obtain ⟨hend, passes, rfl⟩ := h
  obtain ⟨hend', passes', rfl⟩ := h'
  rw [← run_mono (Nat.le_max_left passes passes') hend,
    ← run_mono (Nat.le_max_right passes passes') hend']

/-- A bound is enough if the run ends under it. -/
theorem Ends.run_eq (h : program.Ends c s o) {passes : Nat}
    (hend : (program.run c passes s).ending ≠ .unfinished) : program.run c passes s = o :=
  Ends.unique ⟨hend, passes, rfl⟩ h

end Program

/-! ## Limited loops -/

/-- A loop ends if its body does, under a bound that reaches to the limit. -/
theorem Session.loop_ending_ne_unfinished {c : Settings} {limit : Nat}
    (hlimit : c.maxIterations = some limit) {body : Session → Outcome}
    (hbody : ∀ s, (body s).ending ≠ .unfinished) (condition : Expr) {passes finished : Nat}
    (hpasses : 0 < passes) (hle : limit ≤ finished + passes) (s : Session) :
    (loop c body condition passes finished s).ending ≠ .unfinished := by
  induction passes generalizing finished s with
  | zero => omega
  | succ passes ih =>
    rw [loop_succ]
    by_cases hend : (body s).ending = .completed
    · rw [Outcome.andThen_of_completed hend]
      dsimp only
      rcases (body s).session.test_cases c condition finished with ⟨e, n, h⟩ | ⟨n, h⟩ | ⟨n, h⟩
      · rw [h]
        exact nofun
      · rw [h]
        exact nofun
      · -- another pass is due, so the limit is not reached yet
        obtain ⟨⟨q, ts⟩, -, hts⟩ := Attempt.bind_eq_ok_iff.1 (congrArg Prod.fst h)
        have hbelow := (verdict_eq_true_iff.1 hts).2 limit hlimit
        rw [h]
        exact ih (by omega) (by omega) _
    · rw [Outcome.andThen_of_not_completed hend]
      exact hbody s

/-- A statement that is no loop ends. -/
theorem Statement.ending_simple_ne_unfinished {st : Statement} (hst : st.isLoop = false)
    (c : Settings) (passes : Nat) (s : Session) : (st.run c passes s).ending ≠ .unfinished := by
  intro h
  cases st with
  | doWhile => cases hst
  | assign name x =>
    rw [run_assign] at h
    unfold Session.assign at h
    split at h
    · cases h
    · split at h
      · cases h
      · split at h <;> cases h
  | dump x =>
    rw [run_dump, Session.dump_list] at h
    split at h <;> cases h
  | describe name =>
    rw [run_describe, Session.report_list] at h
    split at h <;> cases h
  | explain name =>
    rw [run_explain, Session.report_list] at h
    split at h <;> cases h

theorem Statement.ending_ne_unfinished {c : Settings} {limit : Nat}
    (hlimit : c.maxIterations = some limit) :
    (∀ (st : Statement) (s : Session), (st.run c c.passes s).ending ≠ .unfinished) ∧
    ∀ (program : List Statement) (s : Session),
      (runAll c c.passes program s).ending ≠ .unfinished := by
  have hpasses : c.passes = max 1 limit := by rw [Settings.passes, hlimit]
  apply Statement.induction
  case simple =>
    intro st hst s
    exact ending_simple_ne_unfinished hst c c.passes s
  case doWhile =>
    intro body condition ih s
    rw [run_doWhile]
    exact Session.loop_ending_ne_unfinished hlimit ih condition (by omega) (by omega) s
  case nil =>
    intro s
    exact nofun
  case cons =>
    intro st rest hst hrest s
    rw [runAll_cons]
    by_cases hend : (st.run c c.passes s).ending = .completed
    · rw [Outcome.andThen_of_completed hend]
      exact hrest _
    · rw [Outcome.andThen_of_not_completed hend]
      exact hst s

/-- **With an iteration limit every program ends**, under the bound that goes with the limit. -/
theorem Program.ending_ne_unfinished {c : Settings} {limit : Nat}
    (hlimit : c.maxIterations = some limit) (program : Program) (s : Session) :
    (program.run c c.passes s).ending ≠ .unfinished :=
  (Statement.ending_ne_unfinished hlimit).2 program s

end BagQuery
