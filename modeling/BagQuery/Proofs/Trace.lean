import BagQuery.Session

/-!
# Traces of runs

A run is a row of actions: statements other than loops, and tests of the conditions of loops.
`Program.trace` lists them in the order in which they are carried out, however deep the loops are
nested, each with the session that it starts in and with its place in the program.  A place says
how to get there from the outside: the index of a statement in its list, the number of the pass in
a loop.  The last action of a run that failed is the one that failed.

* `loop_succ`: a pass of a loop is its body and a test.
* `Program.covers_trace`: each action of a trace starts where the one before it ended, the last
  one ends where the run does and as the run does, the others were completed, and the outputs are
  those of the actions.
* `Chain.invariant`: what every action keeps holds all along a run.
-/

namespace BagQuery

/-! ## Statements -/

/-- The statement is a loop. -/
def Statement.isLoop : Statement → Bool
  | doWhile .. => true
  | _ => false

/-- Induction over statements and lists of them at once. -/
theorem Statement.induction {P : Statement → Prop} {Q : List Statement → Prop}
    (simple : ∀ st : Statement, st.isLoop = false → P st)
    (doWhile : ∀ body condition, Q body → P (.doWhile body condition)) (nil : Q [])
    (cons : ∀ st rest, P st → Q rest → Q (st :: rest)) : (∀ st, P st) ∧ ∀ program, Q program := by
  have assign : ∀ target expr, P (.assign target expr) := fun _ _ => simple _ rfl
  have dump : ∀ expr, P (.dump expr) := fun _ => simple _ rfl
  have describe : ∀ name, P (.describe name) := fun _ => simple _ rfl
  have explain : ∀ name, P (.explain name) := fun _ => simple _ rfl
  exact ⟨@Statement.rec P Q assign dump describe explain doWhile nil cons,
    @Statement.rec_1 P Q assign dump describe explain doWhile nil cons⟩

/-- The bound on passes is for loops only. -/
theorem Statement.run_simple {st : Statement} (h : st.isLoop = false) (c : Settings)
    (passes : Nat) :
    st.run c passes = st.run c 0 := by
  cases st with
  | doWhile => cases h
  | assign | dump | describe | explain => rfl

/-! ## Tests -/

namespace Session

/-- Whether there is another pass when `finished` passes were over before the last one, by the
tuples of the condition; this may fail at the iteration limit. -/
def verdict (limit? : Option Nat) (finished : Nat) : List Tuple → Except Error Bool
  | [] => .ok false
  | _ :: _ =>
    match limit? with
    | some limit => if limit ≤ finished + 1 then .error (.iterationLimit limit) else .ok true
    | none => .ok true

section Verdict

variable {limit? : Option Nat} {finished : Nat} {ts : List Tuple} {e : Error}

theorem verdict_cons (t : Tuple) (ts : List Tuple) :
    verdict limit? finished (t :: ts) = match limit? with
      | some limit => if limit ≤ finished + 1 then .error (.iterationLimit limit) else .ok true
      | none => .ok true := rfl

/-- An empty condition ends the loop, and nothing else does without a failure. -/
theorem verdict_eq_false_iff : verdict limit? finished ts = .ok false ↔ ts = [] := by
  cases ts with
  | nil => exact ⟨fun _ => rfl, fun _ => rfl⟩
  | cons t ts =>
    rw [verdict_cons]
    cases limit? with
    | none => exact ⟨nofun, nofun⟩
    | some limit =>
      dsimp only
      split <;> exact ⟨nofun, nofun⟩

theorem verdict_eq_true_iff : verdict limit? finished ts = .ok true ↔
    ts ≠ [] ∧ ∀ limit, limit? = some limit → finished + 1 < limit := by
  cases ts with
  | nil => exact ⟨nofun, fun h => absurd rfl h.1⟩
  | cons t ts =>
    rw [verdict_cons]
    cases limit? with
    | none => exact ⟨fun _ => ⟨nofun, nofun⟩, fun _ => rfl⟩
    | some limit =>
      dsimp only
      split
      · next hle =>
        refine ⟨nofun, fun h => ?_⟩
        have hlt := h.2 limit rfl
        omega
      · next hlt =>
        refine ⟨fun _ => ⟨nofun, ?_⟩, fun _ => rfl⟩
        rintro _ ⟨⟩
        omega

theorem verdict_eq_error_iff : verdict limit? finished ts = .error e ↔
    ts ≠ [] ∧ ∃ limit, limit? = some limit ∧ limit ≤ finished + 1 ∧ e = .iterationLimit limit := by
  cases ts with
  | nil => exact ⟨nofun, fun h => absurd rfl h.1⟩
  | cons t ts =>
    rw [verdict_cons]
    cases limit? with
    | none =>
      refine ⟨nofun, ?_⟩
      rintro ⟨-, limit, hlimit, -⟩
      cases hlimit
    | some limit =>
      dsimp only
      split
      · next hle =>
        constructor
        · rintro ⟨⟩
          exact ⟨nofun, limit, rfl, hle, rfl⟩
        · rintro ⟨-, _, ⟨⟩, -, rfl⟩
          rfl
      · next hlt =>
        refine ⟨nofun, ?_⟩
        rintro ⟨-, _, ⟨⟩, hle, -⟩
        exact absurd hle hlt

end Verdict

/-- Tests the condition of a loop. -/
def test (c : Settings) (condition : Expr) (finished : Nat) (s : Session) :
    Except Error Bool × Session :=
  ((s.tuplesOf c condition).1 >>= fun p => verdict c.maxIterations finished p.2,
    (s.tuplesOf c condition).2)

/-- A test as an action of its own. -/
def testOutcome (c : Settings) (condition : Expr) (finished : Nat) (s : Session) : Outcome :=
  match s.test c condition finished with
  | (.error e, s) => .failed e s
  | (.ok _, s) => .completed s

/-- **A pass of a loop is its body and a test**, whatever sink the body runs into. -/
theorem loopInto_succ (c : Settings) (body : Sink → Session → Outcome) (condition : Expr)
    (passes finished : Nat) (sink : Sink) (s : Session) :
    loopInto c body condition (passes + 1) finished sink s = (body sink s).andThen fun t =>
      match t.test c condition finished with
      | (.error e, t) => .failed e t
      | (.ok false, t) => .completed t
      | (.ok true, t) =>
        loopInto c body condition passes (finished + 1) (sink.after (body sink s).outputs) t := by
  rw [loopInto]
  congr 1
  funext t
  unfold test
  cases t.tuplesOf c condition with
  | mk outcome u =>
    cases outcome with
    | error e => rfl
    | ok found =>
      obtain ⟨schema, _ | ⟨a, ts⟩⟩ := found
      · rfl
      · dsimp only [bind, Except.bind, verdict]
        cases c.maxIterations with
        | none => rfl
        | some limit =>
          dsimp only
          split <;> rfl

theorem loop_succ (c : Settings) (body : Session → Outcome) (condition : Expr)
    (passes finished : Nat) (s : Session) :
    loop c body condition (passes + 1) finished s = (body s).andThen fun s =>
      match s.test c condition finished with
      | (.error e, s) => .failed e s
      | (.ok false, s) => .completed s
      | (.ok true, s) => loop c body condition passes (finished + 1) s :=
  loopInto_succ c (fun _ => body) condition passes finished .list s

end Session

/-! ## Traces -/

/-- What a run does at one place. -/
inductive Action where
  /-- A statement that is no loop. -/
  | statement (st : Statement)
  /-- The test of a condition when `finished` passes were over before the last one. -/
  | test (condition : Expr) (finished : Nat)

/-- Carries an action out. -/
def Action.run (c : Settings) : Action → Session → Outcome
  | statement st => st.run c 0
  | test condition finished => Session.testOutcome c condition finished

/-- An action at its place and in its session. -/
structure Step where
  place : List Nat
  action : Action
  before : Session

/-- What the step leads to. -/
def Step.after (c : Settings) (step : Step) : Outcome := step.action.run c step.before

/-- The steps behind a run, if it was completed. -/
def Outcome.stepsThen (o : Outcome) (more : Session → List Step) : List Step :=
  match o.ending with
  | .completed => more o.session
  | _ => []

namespace Outcome

theorem andThen_of_completed {o : Outcome} (h : o.ending = .completed)
    (next : Session → Outcome) : o.andThen next =
      { next o.session with outputs := o.outputs ++ (next o.session).outputs } := by
  rw [andThen, h]

theorem andThen_of_not_completed {o : Outcome} (h : o.ending ≠ .completed)
    (next : Session → Outcome) : o.andThen next = o := by
  unfold andThen
  split
  · next hend => exact absurd hend h
  · rfl

theorem of_andThen_completed {o : Outcome} {next : Session → Outcome}
    (h : (o.andThen next).ending = .completed) :
    o.ending = .completed ∧ (next o.session).ending = .completed := by
  by_cases hend : o.ending = .completed
  · rw [andThen_of_completed hend] at h
    exact ⟨hend, h⟩
  · rw [andThen_of_not_completed hend] at h
    exact absurd h hend

theorem stepsThen_of_completed {o : Outcome} (h : o.ending = .completed)
    (more : Session → List Step) : o.stepsThen more = more o.session := by
  rw [stepsThen, h]

theorem stepsThen_of_not_completed {o : Outcome} (h : o.ending ≠ .completed)
    (more : Session → List Step) : o.stepsThen more = [] := by
  unfold stepsThen
  split
  · next hend => exact absurd hend h
  · rfl

end Outcome

/-- The steps of a loop. -/
def Session.loopTrace (c : Settings) (body : Session → Outcome)
    (bodyTrace : List Nat → Session → List Step) (condition : Expr) (place : List Nat) :
    (passes : Nat) → (finished : Nat) → Session → List Step
  | 0, _, _ => []
  | passes + 1, finished, s =>
    bodyTrace (place ++ [finished + 1]) s ++ (body s).stepsThen fun s =>
      ⟨place ++ [finished + 1], .test condition finished, s⟩ ::
        match s.test c condition finished with
        | (.ok true, s) => loopTrace c body bodyTrace condition place passes (finished + 1) s
        | _ => []

mutual

/-- The steps of a statement at a place. -/
def Statement.trace (c : Settings) (passes : Nat) (place : List Nat) :
    Statement → Session → List Step
  | .doWhile body condition =>
    Session.loopTrace c (Statement.runAll c passes body)
      (fun place => Statement.traceAll c passes place 0 body) condition place passes 0
  | st => fun s => [⟨place, .statement st, s⟩]

/-- The steps of statements in order, the first of which has an index in the list at a place. -/
def Statement.traceAll (c : Settings) (passes : Nat) (place : List Nat) (index : Nat) :
    List Statement → Session → List Step
  | [] => fun _ => []
  | st :: rest => fun s =>
    st.trace c passes (place ++ [index]) s ++
      (st.run c passes s).stepsThen (Statement.traceAll c passes place (index + 1) rest)

end

/-- The steps of a program. -/
def Program.trace (c : Settings) (passes : Nat) (program : Program) (s : Session) : List Step :=
  Statement.traceAll c passes [] 0 program s

theorem Statement.trace_simple {st : Statement} (h : st.isLoop = false) (c : Settings)
    (passes : Nat) (place : List Nat) (s : Session) :
    st.trace c passes place s = [⟨place, .statement st, s⟩] := by
  cases st with
  | doWhile => cases h
  | assign | dump | describe | explain => rfl

theorem Outcome.mem_of_mem_stepsThen {o : Outcome} {more : Session → List Step} {step : Step}
    (h : step ∈ o.stepsThen more) : step ∈ more o.session := by
  unfold stepsThen at h
  split at h
  · exact h
  · cases h

/-- What holds of the steps of the body and of the tests holds of all steps of a loop. -/
theorem Session.forall_mem_loopTrace {P : Step → Prop} {c : Settings} {body : Session → Outcome}
    {bodyTrace : List Nat → Session → List Step} {condition : Expr} {place : List Nat}
    (hbody : ∀ pass s, ∀ step ∈ bodyTrace (place ++ [pass]) s, P step)
    (htest : ∀ finished s, P ⟨place ++ [finished + 1], .test condition finished, s⟩)
    (passes finished : Nat) (s : Session) :
    ∀ step ∈ loopTrace c body bodyTrace condition place passes finished s, P step := by
  induction passes generalizing finished s with
  | zero => exact nofun
  | succ passes ih =>
    intro step hstep
    rcases List.mem_append.1 hstep with hstep | hstep
    · exact hbody _ s step hstep
    rcases List.mem_cons.1 (Outcome.mem_of_mem_stepsThen hstep) with rfl | hstep
    · exact htest finished _
    · split at hstep
      · exact ih (finished + 1) _ step hstep
      · cases hstep

/-! ## Chains -/

/-- Each step starts where the one before it ended. -/
inductive Chain (c : Settings) : Session → List Step → Session → Prop
  | nil (s : Session) : Chain c s [] s
  | cons (step : Step) {steps : List Step} {s' : Session} :
      Chain c (step.after c).session steps s' → Chain c step.before (step :: steps) s'

namespace Chain

variable {c : Settings} {s s' s'' : Session}

theorem append {xs ys : List Step} (h : Chain c s xs s') (h' : Chain c s' ys s'') :
    Chain c s (xs ++ ys) s'' := by
  induction h with
  | nil => exact h'
  | cons step _ ih => exact .cons step (ih h')

theorem eq_of_nil (h : Chain c s [] s') : s' = s := by
  cases h
  rfl

/-- The last step starts where the others end. -/
theorem split_last {steps : List Step} {last : Step} (h : Chain c s (steps ++ [last]) s') :
    Chain c s steps last.before ∧ s' = (last.after c).session := by
  induction steps generalizing s with
  | nil =>
    cases h with
    | cons _ h => exact ⟨.nil _, h.eq_of_nil⟩
  | cons step steps ih =>
    cases h with
    | cons _ h =>
      obtain ⟨hsteps, hlast⟩ := ih h
      exact ⟨.cons step hsteps, hlast⟩

/-- What holds at the start, and behind each step that it holds in front of, holds all along. -/
theorem invariant_of_mem {I : Session → Prop} {steps : List Step} (h : Chain c s steps s')
    (hstep : ∀ step ∈ steps, I step.before → I (step.after c).session) (hs : I s) :
    (∀ step ∈ steps, I step.before ∧ I (step.after c).session) ∧ I s' := by
  induction h with
  | nil => exact ⟨fun step hmem => absurd hmem List.not_mem_nil, hs⟩
  | cons step _ ih =>
    obtain ⟨hfirst, hrest⟩ := List.forall_mem_cons.1 hstep
    have hafter := hfirst hs
    obtain ⟨hsteps, hend⟩ := ih hrest hafter
    exact ⟨List.forall_mem_cons.2 ⟨⟨hs, hafter⟩, hsteps⟩, hend⟩

/-- What holds at the start, and behind each step that it holds in front of, holds behind every
step and at the end. -/
theorem invariant {I : Session → Prop} {steps : List Step} (h : Chain c s steps s')
    (hstep : ∀ step : Step, I step.before → I (step.after c).session) (hs : I s) :
    (∀ step ∈ steps, I (step.after c).session) ∧ I s' := by
  obtain ⟨hsteps, hend⟩ := h.invariant_of_mem (fun step _ => hstep step) hs
  exact ⟨fun step hmem => (hsteps step hmem).2, hend⟩

end Chain

/-- How the steps of a run end: all of them were completed, but for the last one of a run that
failed. -/
def Stopped (c : Settings) (steps : List Step) : Ending → Prop
  | .completed => ∀ step ∈ steps, (step.after c).ending = .completed
  | .failed e => ∃ done last, steps = done ++ [last] ∧
      (∀ step ∈ done, (step.after c).ending = .completed) ∧ (last.after c).ending = .failed e
  | .unfinished => True

namespace Stopped

variable {c : Settings} {xs ys : List Step} {ending : Ending}

theorem single (step : Step) : Stopped c [step] (step.after c).ending := by
  cases h : (step.after c).ending with
  | completed => exact List.forall_mem_singleton.2 h
  | failed e => exact ⟨[], step, rfl, nofun, h⟩
  | unfinished => trivial

theorem append (hx : Stopped c xs .completed) (hy : Stopped c ys ending) :
    Stopped c (xs ++ ys) ending := by
  cases ending with
  | completed => exact List.forall_mem_append.2 ⟨hx, hy⟩
  | failed e =>
    obtain ⟨done, last, rfl, hdone, hlast⟩ := hy
    exact ⟨xs ++ done, last, (List.append_assoc ..).symm, List.forall_mem_append.2 ⟨hx, hdone⟩,
      hlast⟩
  | unfinished => trivial

end Stopped

/-- The steps make up a run with an outcome. -/
structure Covers (c : Settings) (s : Session) (steps : List Step) (o : Outcome) : Prop where
  chain : Chain c s steps o.session
  outputs : o.outputs = steps.flatMap fun step => (step.after c).outputs
  stopped : Stopped c steps o.ending

namespace Covers

variable {c : Settings} {s s' : Session} {o : Outcome} {xs ys : List Step}

theorem nil {s : Session} (h : o.session = s) (houtputs : o.outputs = [])
    (hending : ∀ e, o.ending ≠ .failed e) : Covers c s [] o where
  chain := h ▸ .nil _
  outputs := houtputs
  stopped := by
    cases hend : o.ending with
    | completed => exact nofun
    | failed e => exact absurd hend (hending e)
    | unfinished => trivial

theorem single {step : Step} (hstep : step.after c = o) : Covers c step.before [step] o := by
  subst hstep
  exact ⟨.cons step (.nil _), (List.append_nil _).symm, .single step⟩

/-- The last step of a run that failed is the one that failed. -/
theorem failure (h : Covers c s xs o) (e : Error) (he : o.ending = .failed e) :
    ∃ step, xs.getLast? = some step ∧ (step.after c).ending = .failed e := by
  have hstopped := h.stopped
  rw [he] at hstopped
  obtain ⟨done, last, rfl, -, hlast⟩ := hstopped
  exact ⟨last, List.getLast?_concat, hlast⟩

/-- A run and what comes behind it. -/
theorem andThen (h : Covers c s xs o) {next : Session → Outcome} {more : Session → List Step}
    (h' : ∀ s, Covers c s (more s) (next s)) :
    Covers c s (xs ++ o.stepsThen more) (o.andThen next) := by
  by_cases hend : o.ending = .completed
  · rw [Outcome.stepsThen_of_completed hend, Outcome.andThen_of_completed hend]
    obtain ⟨hchain, houtputs, hstopped⟩ := h' o.session
    refine ⟨h.chain.append hchain, ?_, ?_⟩
    · rw [List.flatMap_append, ← h.outputs, ← houtputs]
    · have hfirst := h.stopped
      rw [hend] at hfirst
      exact hfirst.append hstopped
  · rw [Outcome.stepsThen_of_not_completed hend, Outcome.andThen_of_not_completed hend,
      List.append_nil]
    exact h

/-- A step that leaves a session from which the others go on. -/
theorem cons {step : Step} (hstep : step.after c = .completed s') (h : Covers c s' xs o) :
    Covers c step.before (step :: xs) o := by
  refine ⟨.cons step ?_, ?_, ?_⟩
  · rw [hstep]
    exact h.chain
  · rw [List.flatMap_cons, hstep, ← h.outputs]
    rfl
  · have hfirst := Stopped.single (c := c) step
    rw [hstep] at hfirst
    exact hfirst.append h.stopped

end Covers

theorem Session.session_testOutcome (c : Settings) (condition : Expr) (finished : Nat)
    (s : Session) :
    (s.testOutcome c condition finished).session = (s.test c condition finished).2 := by
  unfold testOutcome
  split
  · next h => rw [h]; rfl
  · next h => rw [h]; rfl

theorem Session.outputs_testOutcome (c : Settings) (condition : Expr) (finished : Nat) (s : Session) :
    (s.testOutcome c condition finished).outputs = [] := by
  unfold testOutcome
  split <;> rfl

theorem Session.outputs_assign (c : Settings) (name : String) (x : Expr) (s : Session) :
    (s.assign c name x).outputs = [] := by
  unfold assign
  split
  · rfl
  · split
    · rfl
    · split <;> rfl

theorem Session.covers_loopTrace {c : Settings} {body : Session → Outcome}
    {bodyTrace : List Nat → Session → List Step}
    (hbody : ∀ place s, Covers c s (bodyTrace place s) (body s)) (condition : Expr)
    (place : List Nat) (passes finished : Nat) (s : Session) :
    Covers c s (loopTrace c body bodyTrace condition place passes finished s)
      (loop c body condition passes finished s) := by
  induction passes generalizing finished s with
  | zero => exact .nil rfl rfl nofun
  | succ passes ih =>
    rw [loop_succ, loopTrace]
    refine (hbody (place ++ [finished + 1]) s).andThen fun s₁ => ?_
    -- the test is the last step of the pass, and what follows starts where it ends
    let step : Step := ⟨place ++ [finished + 1], .test condition finished, s₁⟩
    have htest : step.after c = s₁.testOutcome c condition finished := rfl
    unfold testOutcome at htest
    cases hverdict : s₁.test c condition finished with
    | mk verdict s₂ =>
      rw [hverdict] at htest
      match verdict with
      | .error e => exact Covers.single htest
      | .ok false => exact Covers.single htest
      | .ok true => exact Covers.cons htest (ih (finished + 1) s₂)

/-- The steps of statements make up their run. -/
theorem Statement.covers_trace (c : Settings) (passes : Nat) :
    (∀ (st : Statement) (place : List Nat) (s : Session),
      Covers c s (st.trace c passes place s) (st.run c passes s)) ∧
    ∀ (program : List Statement) (place : List Nat) (index : Nat) (s : Session),
      Covers c s (traceAll c passes place index program s) (runAll c passes program s) := by
  apply Statement.induction
  case simple =>
    intro st h place s
    rw [trace_simple h, run_simple h]
    have hstep : Step.after c ⟨place, .statement st, s⟩ = st.run c 0 s := rfl
    exact Covers.single hstep
  case doWhile =>
    intro body condition ih place s
    rw [run_doWhile]
    exact Session.covers_loopTrace (fun place => ih place 0) condition place passes 0 s
  case nil =>
    intro place index s
    exact .nil rfl rfl nofun
  case cons =>
    intro st rest hst hrest place index s
    exact (hst (place ++ [index]) s).andThen fun s => hrest place (index + 1) s

/-- **The steps of a program make up its run.** -/
theorem Program.covers_trace (c : Settings) (passes : Nat) (program : Program) (s : Session) :
    Covers c s (program.trace c passes s) (program.run c passes s) :=
  (Statement.covers_trace c passes).2 program [] 0 s

end BagQuery
