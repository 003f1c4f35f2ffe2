import BagQuery.Proofs.WriteLog

/-!
# Runs into a sink

A run goes its way whatever becomes of its outputs, up to the first one that its sink refuses.  The
statement that put it out fails, and since putting out is the last thing that a statement does, the
session is the one that the statement leaves anyhow.  So a run into a sink is the run into a list,
or it is cut short behind one of the steps of that run (`Program.received`).

What is kept by the steps of a run is therefore kept by a run into any sink
(`Received.prefix_of_steps`), and such a run fails as the run into a list does, or over a refusal
(`Received.failure`).
-/

namespace BagQuery

namespace Sink

/-- The sink takes the outputs, one behind the other. -/
def Takes : Sink → List Output → Prop
  | _, [] => True
  | sink, o :: os => sink.refusal? [] o = none ∧ (sink.after [o]).Takes os

/-- The error says that the sink refuses an output behind some others. -/
def Refuses (sink : Sink) (e : Error) : Prop :=
  ∃ taken o reason, sink.refusal? taken o = some reason ∧ e = .output reason

variable {sink : Sink}

theorem after_after (sink : Sink) (os os' : List Output) :
    (sink.after os).after os' = sink.after (os ++ os') := by
  simp only [after, List.append_assoc]

theorem Takes.append {os os' : List Output} (h : sink.Takes os) (h' : (sink.after os).Takes os') :
    sink.Takes (os ++ os') := by
  induction os generalizing sink with
  | nil => exact h'
  | cons o os ih =>
    refine ⟨h.1, ih h.2 ?_⟩
    rw [after_after]
    exact h'

theorem Refuses.of_after {os : List Output} {e : Error} (h : (sink.after os).Refuses e) :
    sink.Refuses e := by
  obtain ⟨taken, o, reason, hreason, he⟩ := h
  exact ⟨os ++ taken, o, reason, hreason, he⟩

end Sink

/-! ## Steps that were received -/

/-- The outcome is that of the first steps, behind which the sink refused an output. -/
structure CutShort (c : Settings) (sink : Sink) (s : Session) (done : List Step) (last : Step)
    (o : Outcome) : Prop where
  chain : Chain c s (done ++ [last]) o.session
  completed : ∀ step ∈ done, (step.after c).ending = .completed
  outputs : o.outputs = done.flatMap fun step => (step.after c).outputs
  taken : sink.Takes o.outputs
  refused : ∃ out reason, (last.after c).outputs = [out] ∧
    (sink.after o.outputs).refusal? [] out = some reason ∧ o.ending = .failed (.output reason)

/-- What becomes of a run with some steps and the outcome `o` if it goes into a sink: it is the same
run, or it is cut short. -/
def Received (c : Settings) (sink : Sink) (s : Session) (steps : List Step) (o o' : Outcome) :
    Prop :=
  sink.Takes o.outputs ∧ o' = o ∨
    ∃ done last rest, steps = done ++ last :: rest ∧ CutShort c sink s done last o'

namespace Received

variable {c : Settings} {sink : Sink} {s s' : Session} {steps : List Step} {o o' : Outcome}

/-- Without outputs there is nothing to refuse. -/
theorem silent (h : o.outputs = []) : Received c sink s steps o o :=
  Or.inl ⟨h ▸ trivial, rfl⟩

theorem offered {step : Step} {out : Output} (h : step.after c = .emitted out s') :
    Received c sink step.before [step] (.emitted out s') (.offered sink out s') := by
  unfold Outcome.offered
  split
  · next htakes => exact Or.inl ⟨⟨htakes, trivial⟩, rfl⟩
  · next reason hrefused =>
    have hchain : Chain c step.before [step] s' := .cons step (by rw [h]; exact .nil s')
    refine Or.inr ⟨[], step, [], rfl, hchain, nofun, rfl, trivial, out, reason, ?_, hrefused, rfl⟩
    rw [h]
    rfl

/-- What comes behind a run goes into what is left of the sink. -/
theorem andThen (h : Received c sink s steps o o') (hcovers : Covers c s steps o)
    {next next' : Session → Outcome} {more : Session → List Step}
    (hnext : ∀ t, Received c (sink.after o'.outputs) t (more t) (next t) (next' t)) :
    Received c sink s (steps ++ o.stepsThen more) (o.andThen next) (o'.andThen next') := by
  rcases h with ⟨htakes, rfl⟩ | ⟨done, last, rest, rfl, hcut⟩
  · by_cases hend : o'.ending = .completed
    · rw [Outcome.stepsThen_of_completed hend, Outcome.andThen_of_completed hend,
        Outcome.andThen_of_completed hend]
      rcases hnext o'.session with ⟨hmore, hsame⟩ | ⟨done, last, rest, hsteps, hcut⟩
      · rw [hsame]
        exact Or.inl ⟨htakes.append hmore, rfl⟩
      · -- the steps of the first run are completed, and the cut is behind them
        have hstopped := hcovers.stopped
        rw [hend] at hstopped
        obtain ⟨out, reason, hout, hreason, hfailed⟩ := hcut.refused
        refine Or.inr ⟨steps ++ done, last, rest, ?_, ?_, ?_, ?_, ?_, out, reason, hout, ?_,
          hfailed⟩
        · rw [hsteps, List.append_assoc]
        · rw [List.append_assoc]
          exact hcovers.chain.append hcut.chain
        · exact List.forall_mem_append.2 ⟨hstopped, hcut.completed⟩
        · rw [List.flatMap_append, ← hcovers.outputs, ← hcut.outputs]
        · exact htakes.append hcut.taken
        · rw [← Sink.after_after]
          exact hreason
    · rw [Outcome.andThen_of_not_completed hend, Outcome.andThen_of_not_completed hend]
      exact Or.inl ⟨htakes, rfl⟩
  · obtain ⟨out, reason, -, -, hfailed⟩ := hcut.refused
    have hend : o'.ending ≠ .completed := by
      rw [hfailed]
      exact nofun
    rw [Outcome.andThen_of_not_completed hend, List.append_assoc, List.cons_append]
    exact Or.inr ⟨done, last, _, rfl, hcut⟩

/-- A step without outputs in front. -/
theorem cons {step : Step} (hstep : step.after c = .completed s')
    (h : Received c sink s' steps o o') :
    Received c sink step.before (step :: steps) o o' := by
  rcases h with h | ⟨done, last, rest, rfl, hcut⟩
  · exact Or.inl h
  · refine Or.inr ⟨step :: done, last, rest, rfl, .cons step ?_, ?_, ?_, hcut.taken, hcut.refused⟩
    · rw [hstep]
      exact hcut.chain
    · refine List.forall_mem_cons.2 ⟨?_, hcut.completed⟩
      rw [hstep]
      rfl
    · rw [List.flatMap_cons, hstep, hcut.outputs]
      rfl

/-- **A run into a sink carries out the first steps of the run.** -/
theorem prefix_of_steps (h : Received c sink s steps o o') (hcovers : Covers c s steps o) :
    ∃ done, done <+: steps ∧ Chain c s done o'.session := by
  rcases h with ⟨-, rfl⟩ | ⟨done, last, rest, rfl, hcut⟩
  · exact ⟨steps, List.prefix_rfl, hcovers.chain⟩
  · refine ⟨done ++ [last], ⟨rest, ?_⟩, hcut.chain⟩
    rw [List.append_assoc, List.singleton_append]

/-- **A run into a sink fails as the run does, or over a refusal.** -/
theorem failure (h : Received c sink s steps o o') {e : Error} (he : o'.ending = .failed e) :
    o.ending = .failed e ∨ sink.Refuses e := by
  rcases h with ⟨-, rfl⟩ | ⟨done, last, rest, -, hcut⟩
  · exact Or.inl he
  · obtain ⟨out, reason, -, hreason, hfailed⟩ := hcut.refused
    cases hfailed.symm.trans he
    exact Or.inr (Sink.Refuses.of_after ⟨[], out, reason, hreason, rfl⟩)

end Received

/-! ## Runs -/

section Runs

variable {c : Settings}

theorem Session.received_report {step : Step} {name : String} {output : Query → Output}
    (hstep : step.after c = step.before.report .list name output) (sink : Sink) :
    Received c sink step.before [step] (step.before.report .list name output)
      (step.before.report sink name output) := by
  rw [report_list] at hstep ⊢
  unfold report
  cases hname : step.before.bindings.resolve name with
  | error e => exact .silent rfl
  | ok q =>
    rw [hname] at hstep
    exact .offered hstep

/-- A statement that is no loop has one step. -/
theorem Statement.received_simple {st : Statement} (hst : st.isLoop = false) (passes : Nat)
    (place : List Nat) (sink : Sink) (s : Session) :
    Received c sink s [⟨place, .statement st, s⟩] (st.run c passes s)
      (st.runInto c passes sink s) := by
  let step : Step := ⟨place, .statement st, s⟩
  cases st with
  | assign name x => exact .silent (Session.outputs_assign ..)
  | dump x =>
    have hstep : step.after c = s.dump .list c x := rfl
    show Received c sink s [step] (s.dump .list c x) (s.dump sink c x)
    rw [Session.dump_list] at hstep ⊢
    unfold Session.dump
    cases htuples : s.tuplesOf c x with
    | mk outcome s' =>
      rw [htuples] at hstep
      cases outcome with
      | error e => exact .silent rfl
      | ok p => exact .offered hstep
  | describe name | explain name => exact Session.received_report (rfl : step.after c = _) sink
  | doWhile => cases hst

/-- Passes of a loop, if the body is received. -/
theorem Session.received_loop {body : Session → Outcome} {bodyInto : Sink → Session → Outcome}
    {bodyTrace : List Nat → Session → List Step}
    (hcovers : ∀ place s, Covers c s (bodyTrace place s) (body s))
    (hbody : ∀ place sink s, Received c sink s (bodyTrace place s) (body s) (bodyInto sink s))
    (condition : Expr) (place : List Nat) (passes finished : Nat) (sink : Sink) (s : Session) :
    Received c sink s (loopTrace c body bodyTrace condition place passes finished s)
      (loop c body condition passes finished s)
      (loopInto c bodyInto condition passes finished sink s) := by
  induction passes generalizing finished sink s with
  | zero => exact .silent rfl
  | succ passes ih =>
    rw [loop_succ, loopTrace, loopInto_succ]
    refine (hbody (place ++ [finished + 1]) sink s).andThen (hcovers _ s) fun t => ?_
    let step : Step := ⟨place ++ [finished + 1], .test condition finished, t⟩
    rcases t.test_cases c condition finished with ⟨e, n, h⟩ | ⟨n, h⟩ | ⟨n, h⟩
    · rw [h]
      exact .silent rfl
    · rw [h]
      exact .silent rfl
    · rw [h]
      have hstep : step.after c = .completed (t.reading n) := by
        show t.testOutcome c condition finished = _
        rw [testOutcome, h]
      exact .cons hstep (ih (finished + 1) _ (t.reading n))

/-- Statements are received, loops among them. -/
theorem Statement.received (c : Settings) (passes : Nat) :
    (∀ (st : Statement) (place : List Nat) (sink : Sink) (s : Session),
      Received c sink s (st.trace c passes place s) (st.run c passes s)
        (st.runInto c passes sink s)) ∧
    ∀ (program : List Statement) (place : List Nat) (index : Nat) (sink : Sink) (s : Session),
      Received c sink s (traceAll c passes place index program s) (runAll c passes program s)
        (runAllInto c passes program sink s) := by
  obtain ⟨hcovers, hcoversAll⟩ := covers_trace c passes
  apply Statement.induction
  case simple =>
    intro st hst place sink s
    rw [trace_simple hst]
    exact received_simple hst passes place sink s
  case doWhile =>
    intro body condition ih place sink s
    rw [run_doWhile]
    exact Session.received_loop (fun place => hcoversAll body place 0) (fun place => ih place 0)
      condition place passes 0 sink s
  case nil =>
    intro place index sink s
    exact .silent rfl
  case cons =>
    intro st rest hst hrest place index sink s
    rw [runAll_cons, traceAll, runAllInto]
    exact (hst (place ++ [index]) sink s).andThen (hcovers st _ s) fun t =>
      hrest place (index + 1) _ t

/-- **A run into a sink is the run, or it is cut short behind one of its steps.** -/
theorem Program.received (c : Settings) (passes : Nat) (program : Program) (sink : Sink)
    (s : Session) :
    Received c sink s (program.trace c passes s) (program.run c passes s)
      (program.runInto c passes sink s) :=
  (Statement.received c passes).2 program [] 0 sink s

end Runs

end BagQuery
