import BagQuery.Proofs.EagerStore
import BagQuery.Proofs.Simulation

/-!
# Runs that fail

A failing statement contributes nothing.  Take away from the trace of a run that failed its last
step, and from the others the tests of conditions: what is left are the statements that were
completed, pass after pass of every loop.  Running these one after the other from the same session
is completed, with the bindings, the stored relations and the outputs that the failed run left
(`Program.failure_contributes_nothing`).

Two things make this work.  A step that fails changes no binding and no stored relation and puts
out nothing, though it may use up a number or read the store (`Step.unchanged_of_failed`).  And the
traffic, which the tests add to, is never looked at: sessions that differ in their traffic only go
on alike (`Session.SameContents`).
-/

namespace BagQuery

/-! ## Steps that fail -/

namespace Session

/-- The names are bound to the same queries, and the same relations are stored. -/
structure SameRelations (s t : Session) : Prop where
  bindings : s.bindings = t.bindings
  store : s.database.store = t.database.store

namespace SameRelations

variable {s t u : Session}

theorem symm (h : s.SameRelations t) : t.SameRelations s := ⟨h.bindings.symm, h.store.symm⟩

theorem trans (h : s.SameRelations t) (h' : t.SameRelations u) : s.SameRelations u :=
  ⟨h.bindings.trans h'.bindings, h.store.trans h'.store⟩

theorem reading (s : Session) (n : Nat) : (s.reading n).SameRelations s := ⟨rfl, rfl⟩

end SameRelations

theorem assign_of_failed {c : Settings} {name : String} {x : Expr} {s : Session} {e : Error}
    (h : (s.assign c name x).ending = .failed e) :
    (s.assign c name x).outputs = [] ∧ (s.assign c name x).session.SameRelations s := by
  unfold assign at *
  cases hx : x.analyze s.bindings with
  | error e' => exact ⟨rfl, rfl, rfl⟩
  | ok q =>
    rw [hx] at h
    dsimp only at *
    cases hmode : c.mode with
    | lazy => rw [hmode] at h; cases h
    | eager =>
      rw [hmode] at h
      dsimp only at *
      rw [materialize_eq] at *
      -- a query that could be drained leaves nothing that can fail
      cases hdrain : (q.drain c.env s.database.store).outcome with
      | error e' => exact ⟨rfl, rfl, rfl⟩
      | ok tuples => rw [hdrain] at h; cases h

theorem dump_of_failed {c : Settings} {x : Expr} {s : Session} {e : Error}
    (h : (s.dump .list c x).ending = .failed e) : (s.dump .list c x).outputs = [] := by
  rw [dump_list] at *
  split
  · rfl
  · next heq => rw [heq] at h; cases h

theorem report_of_failed {name : String} {output : Query → Output} {s : Session} {e : Error}
    (h : (s.report .list name output).ending = .failed e) :
    (s.report .list name output).outputs = [] := by
  rw [report_list] at *
  split
  · rfl
  · next heq => rw [heq] at h; cases h

end Session

/-- **A step that fails puts out nothing, and leaves all bindings and stored relations.** -/
theorem Step.unchanged_of_failed {c : Settings} {step : Step} {e : Error}
    (h : (step.after c).ending = .failed e) :
    (step.after c).outputs = [] ∧ (step.after c).session.SameRelations step.before := by
  obtain ⟨place, action, s⟩ := step
  cases action with
  | test condition finished =>
    obtain ⟨n, hn⟩ := Session.test_reads c condition finished s
    refine ⟨Session.outputs_testOutcome .., ?_⟩
    rw [Step.after, Action.run, Session.session_testOutcome, hn]
    exact .reading s n
  | statement st =>
    cases st with
    | assign name x => exact Session.assign_of_failed h
    | dump x =>
      obtain ⟨n, hn⟩ := Session.dump_reads .list c x s
      refine ⟨Session.dump_of_failed h, ?_⟩
      rw [Step.after, Action.run, Statement.run_dump, hn]
      exact .reading s n
    | describe name =>
      refine ⟨Session.report_of_failed h, ?_⟩
      rw [Step.after, Action.run, Statement.run_describe, Session.report_session]
      exact ⟨rfl, rfl⟩
    | explain name =>
      refine ⟨Session.report_of_failed h, ?_⟩
      rw [Step.after, Action.run, Statement.run_explain, Session.report_session]
      exact ⟨rfl, rfl⟩
    | doWhile body condition => cases h

/-! ## Sessions that go on alike -/

/-- The sessions are the same but for the traffic of their stores. -/
structure Session.SameContents (s t : Session) : Prop extends s.SameRelations t where
  materialized : s.materialized = t.materialized

/-- The outcomes are the same but for the traffic of the stores. -/
structure Outcome.SameContents (o o' : Outcome) : Prop where
  session : o.session.SameContents o'.session
  outputs : o.outputs = o'.outputs
  ending : o.ending = o'.ending

namespace Session.SameContents

variable {s t : Session}

theorem refl (s : Session) : s.SameContents s := ⟨⟨rfl, rfl⟩, rfl⟩

theorem reading (h : s.SameContents t) (m n : Nat) : (s.reading m).SameContents (t.reading n) :=
  ⟨⟨h.bindings, h.store⟩, h.materialized⟩

theorem counting (h : s.SameContents t) : s.counting.SameContents t.counting :=
  ⟨⟨h.bindings, h.store⟩, congrArg (· + 1) h.materialized⟩

theorem nextKey (h : s.SameContents t) (c : Settings) (name : String) :
    s.nextKey c name = t.nextKey c name := by
  unfold Session.nextKey
  rw [h.materialized]

theorem storing (h : s.SameContents t) (c : Settings) (name : String) (schema : Schema)
    (bag : Bag) : (s.storing c name schema bag).SameContents (t.storing c name schema bag) := by
  refine ⟨⟨h.bindings, ?_⟩, congrArg (· + 1) h.materialized⟩
  show Store.replace s.database.store _ schema bag = Store.replace t.database.store _ schema bag
  rw [h.store, h.nextKey]

theorem bind (h : s.SameContents t) (c : Settings) (name : String) (q : Query) :
    (s.bind c name q).SameContents (t.bind c name q) := by
  refine ⟨⟨?_, ?_⟩, ?_⟩
  · rw [bindings_bind, bindings_bind, h.bindings]
  · unfold Session.bind release
    rw [h.bindings]
    dsimp only
    split
    · split
      · exact congrArg (Dictionary.erase · _) h.store
      · exact h.store
    · exact h.store
  · rw [materialized_bind, materialized_bind, h.materialized]

theorem tuplesOf (h : s.SameContents t) (c : Settings) (x : Expr) :
    (s.tuplesOf c x).1 = (t.tuplesOf c x).1 ∧
      (s.tuplesOf c x).2.SameContents (t.tuplesOf c x).2 := by
  obtain ⟨m, hm⟩ := tuplesOf_reads c x s
  obtain ⟨n, hn⟩ := tuplesOf_reads c x t
  rw [tuplesOf_outcome, tuplesOf_outcome, h.bindings, h.store, hm, hn]
  exact ⟨rfl, h.reading m n⟩

theorem assign (h : s.SameContents t) (c : Settings) (name : String) (x : Expr) :
    (s.assign c name x).SameContents (t.assign c name x) := by
  unfold Session.assign
  rw [h.bindings]
  cases x.analyze t.bindings with
  | error e => exact ⟨h, rfl, rfl⟩
  | ok q =>
    dsimp only
    cases c.mode with
    | lazy => exact ⟨h.bind c name q, rfl, rfl⟩
    | eager =>
      dsimp only
      rw [materialize_eq, materialize_eq, h.store, h.nextKey]
      cases (q.drain c.env t.database.store).outcome with
      | error e => exact ⟨(h.reading _ _).counting, rfl, rfl⟩
      | ok tuples => exact ⟨((h.reading _ _).storing c name _ _).bind c name _, rfl, rfl⟩

end Session.SameContents

theorem Outcome.related_sameContents_iff {o o' : Outcome} :
    o.Related Session.SameContents Eq o' ↔ o.SameContents o' := by
  constructor
  · rintro ⟨hsession, houtputs, hending⟩
    exact ⟨hsession, List.forall₂_eq_eq_eq ▸ houtputs, hending⟩
  · rintro ⟨hsession, houtputs, hending⟩
    exact ⟨hsession, List.forall₂_eq_eq_eq ▸ houtputs, hending⟩

/-- **Runs go alike where the traffic was another.** -/
theorem Session.SameContents.simulation (c : Settings) : Simulation c c Session.SameContents Eq where
  maxIterations := rfl
  dumped _ _ := rfl
  described _ _ := rfl
  resolve h name := by
    rw [h.bindings]
    refine (Attempt.Alike.self _).mono ?_
    rintro q _ ⟨-, rfl⟩
    exact ⟨rfl, rfl⟩
  tuplesOf h x := by
    obtain ⟨houtcome, hsession⟩ := h.tuplesOf c x
    rw [houtcome]
    refine ⟨(Attempt.Alike.self _).mono ?_, hsession⟩
    rintro p _ ⟨-, rfl⟩
    exact ⟨rfl, rfl⟩
  assign h name x := Outcome.related_sameContents_iff.2 (h.assign c name x)

/-! ## The completed part -/

/-- The statement that a step carries out; none if it tests a condition. -/
def Step.statement? (step : Step) : Option Statement :=
  match step.action with
  | .statement st => some st
  | .test .. => none

/-- The statements that steps carry out, in the order of the steps. -/
def Step.statements (steps : List Step) : Program := steps.filterMap Step.statement?

/-- A completed step is no loop: a loop is taken apart into its steps. -/
theorem Step.isLoop_of_completed {c : Settings} {step : Step} {st : Statement}
    (h : (step.after c).ending = .completed) (hst : step.statement? = some st) :
    step.action = .statement st ∧ st.isLoop = false := by
  obtain ⟨place, action, s⟩ := step
  cases action with
  | test => cases hst
  | statement st' =>
    cases hst
    refine ⟨rfl, ?_⟩
    cases st with
    | doWhile => cases h
    | assign | dump | describe | explain => rfl

theorem Step.isLoop_of_mem_statements {c : Settings} {steps : List Step} {st : Statement}
    (hdone : ∀ step ∈ steps, (step.after c).ending = .completed)
    (hst : st ∈ Step.statements steps) : st.isLoop = false := by
  obtain ⟨step, hstep, hst⟩ := List.mem_filterMap.1 hst
  exact (isLoop_of_completed (hdone step hstep) hst).2

/-- **The statements of completed steps can be run again**, without the tests between them. -/
theorem Chain.run_statements {c : Settings} {s s' : Session} {steps : List Step}
    (h : Chain c s steps s') (hdone : ∀ step ∈ steps, (step.after c).ending = .completed)
    (passes : Nat) {t : Session} (ht : s.SameContents t) :
    let again := Program.run c passes (Step.statements steps) t
    again.ending = .completed ∧ s'.SameContents again.session ∧
      again.outputs = steps.flatMap fun step => (step.after c).outputs := by
  induction h generalizing t with
  | nil => exact ⟨rfl, ht, rfl⟩
  | @cons step steps s' hrest ih =>
    obtain ⟨hstep, hsteps⟩ := List.forall_mem_cons.1 hdone
    cases hst : step.statement? with
    | none =>
      -- a test reads at most, and puts out nothing
      obtain ⟨place, action, s⟩ := step
      cases action with
      | statement st => cases hst
      | test condition finished =>
        obtain ⟨n, hn⟩ := Session.test_reads c condition finished s
        have hafter :
            (Step.after c ⟨place, .test condition finished, s⟩).session.SameContents t := by
          rw [Step.after, Action.run, Session.session_testOutcome, hn]
          exact ht.reading n 0
        have houtputs : (Step.after c ⟨place, .test condition finished, s⟩).outputs = [] :=
          Session.outputs_testOutcome ..
        rw [Step.statements, List.filterMap_cons_none hst, List.flatMap_cons, houtputs]
        exact ih hsteps hafter
    | some st =>
      obtain ⟨haction, hsimple⟩ := Step.isLoop_of_completed hstep hst
      have hafter : step.after c = st.run c passes step.before := by
        rw [Step.after, haction, Action.run, Statement.run_simple hsimple c passes]
      rw [hafter] at hstep ih
      have hrun := Outcome.related_sameContents_iff.1
        ((Session.SameContents.simulation c).simple hsimple passes ht)
      have hend : (st.run c passes t).ending = .completed := hrun.ending.symm.trans hstep
      obtain ⟨hending, hsession, houtputs⟩ := ih hsteps hrun.session
      rw [Step.statements, List.filterMap_cons_some hst, List.flatMap_cons, hafter]
      have hcons : Program.run c passes (st :: steps.filterMap Step.statement?) t =
          (st.run c passes t).andThen (Program.run c passes (Step.statements steps)) := rfl
      dsimp only
      rw [hcons, Outcome.andThen_of_completed hend]
      refine ⟨hending, hsession, ?_⟩
      rw [hrun.outputs, ← houtputs]

/-- **A run that fails leaves what its completed statements did, and nothing else.**  The steps of
the run are completed but for the last one, which changes no binding and no stored relation and
puts out nothing.  The statements of the completed steps, run again from the same session, are
completed with the same bindings, stored relations and outputs.  And text that cannot be read
changes nothing at all. -/
theorem Program.failure_contributes_nothing (c : Settings) (passes : Nat) (s : Session) :
    (∀ (program : Program) (e : Error), (program.run c passes s).ending = .failed e →
      ∃ done last, program.trace c passes s = done ++ [last] ∧
        (∀ step ∈ done, (step.after c).ending = .completed) ∧
        (last.after c).ending = .failed e ∧ (last.after c).outputs = [] ∧
        (last.after c).session.SameRelations last.before ∧
        (∀ st ∈ Step.statements done, st.isLoop = false) ∧
        let failed := program.run c passes s
        let again := Program.run c passes (Step.statements done) s
        again.ending = .completed ∧ again.session.SameRelations failed.session ∧
          again.outputs = failed.outputs) ∧
      ∀ (text : String) (refusal : Refusal), Program.parse text = .error refusal →
        Program.runText c passes text s = .failed refusal.toError s := by
  constructor
  · intro program e he
    obtain ⟨hchain, houtputs, hstopped⟩ := program.covers_trace c passes s
    rw [he] at hstopped
    obtain ⟨done, last, htrace, hdone, hlast⟩ := hstopped
    obtain ⟨hlastOutputs, hunchanged⟩ := Step.unchanged_of_failed hlast
    rw [htrace] at hchain houtputs
    obtain ⟨hchain, hend⟩ := hchain.split_last
    obtain ⟨hending, hsession, hagain⟩ := hchain.run_statements hdone passes (.refl s)
    refine ⟨done, last, htrace, hdone, hlast, hlastOutputs, hunchanged, ?_, hending, ?_, ?_⟩
    · exact fun st hst => Step.isLoop_of_mem_statements hdone hst
    · rw [hend]
      exact (hunchanged.trans hsession.toSameRelations).symm
    · rw [hagain, houtputs, List.flatMap_append, List.flatMap_singleton, hlastOutputs,
        List.append_nil]
  · intro text refusal hparse
    unfold runText runTextInto
    rw [hparse]

/-! ### A file that is not there -/

/-- Two rows under a name, and a failure. -/
def Program.leftover : Program :=
  [.assign "rest" (.table [⟨[.int 1]⟩, ⟨[.int 1]⟩] [⟨"a", .int⟩]), .dump (.reference "none")]

/-- Takes a row away in each pass of a loop, and at last loads a file that is not there. -/
def Program.missingFile : Program :=
  [.assign "one" (.table [⟨[.int 1]⟩] [⟨"a", .int⟩]),
    .doWhile [.assign "rest" (.setOp .diff "rest" "one")] (.reference "rest"),
    .dump (.reference "one"),
    .assign "rest" (.load "missing" [⟨"a", .int⟩])]

/-- The session of a failed run goes on with a run that fails in its turn, behind two passes of a
loop and with a number used up. -/
theorem Program.failure_contributes_nothing_missingFile :
    let s := (leftover.run .eager 3 .fresh).session
    let failed := missingFile.run .eager 3 s
    failed.ending = .failed (.load "missing" "") ∧
      failed.session.materialized = 5 ∧
      failed.session.database.store.keys =
        [Settings.eager.key "one" 2, Settings.eager.key "rest" 4] ∧
      (missingFile.trace .eager 3 s).map Step.place =
        [[0], [1, 1, 0], [1, 1], [1, 2, 0], [1, 2], [2], [3]] ∧
      (∃ done last, missingFile.trace .eager 3 s = done ++ [last] ∧
        let again := Program.run .eager 3 (Step.statements done) s
        again.ending = .completed ∧ again.session.SameRelations failed.session ∧
          again.outputs = failed.outputs) ∧
      Program.parse "DUMP one; DUMP" = .error ⟨⟨1, 15⟩, .expected .identifier none⟩ ∧
      runText .eager 3 "DUMP one; DUMP" s =
        .failed (.malformed ⟨1, 15⟩ "expected an identifier, found end of input") s := by
  intro s failed
  have hfailed : failed.ending = .failed (.load "missing" "") := by decide +kernel
  have hparse : Program.parse "DUMP one; DUMP" = .error ⟨⟨1, 15⟩, .expected .identifier none⟩ := by
    with_unfolding_all rfl
  obtain ⟨hruns, htexts⟩ := failure_contributes_nothing .eager 3 s
  obtain ⟨done, last, htrace, -, -, -, -, -, hagain⟩ := hruns missingFile _ hfailed
  refine ⟨hfailed, ?_, ?_, ?_, ⟨done, last, htrace, hagain⟩, hparse, htexts _ _ hparse⟩
  · decide +kernel
  · decide +kernel
  · decide +kernel

end BagQuery
