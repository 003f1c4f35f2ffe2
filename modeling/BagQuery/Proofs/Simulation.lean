import BagQuery.Proofs.Attempt
import BagQuery.Proofs.WriteLog

/-!
# Runs that go alike

Two sessions go alike under a program if every action takes them to sessions that go alike again,
puts out outputs that say the same, and ends in the same way.  What this means for bindings and
stores is left open here: `R` relates the sessions, `O` the outputs.

Sessions go alike that differ in the traffic of their stores (`Session.SameContents`), that bind
the same queries without scans over any two databases (`Session.Aside`), or that hold the same
relations under other keys (`Session.Mirrors`).

A statement or a test does nothing with a session but to look names up, to take the tuples of an
expression, and to assign.  So a `Simulation` says of these three only how they go in related
sessions, and the rest is the same for every `R`: what one action keeps (`Simulation.simple`,
`Simulation.test`) is kept by the passes of a loop, by a program (`Simulation.run`), and by programs
one behind the other (`Simulation.runEach`).
-/

namespace BagQuery

open Attempt

/-- Two runs end alike, in sessions that `R` relates and with outputs that `O` relates. -/
structure Outcome.Related (R : Session → Session → Prop) (O : Output → Output → Prop)
    (o o' : Outcome) : Prop where
  sessions : R o.session o'.session
  outputs : List.Forall₂ O o.outputs o'.outputs
  ending : o.ending = o'.ending

/-- Under the settings `c` and `c'`, sessions that `R` relates go alike. -/
structure Simulation (c c' : Settings) (R : Session → Session → Prop)
    (O : Output → Output → Prop) : Prop where
  maxIterations : c.maxIterations = c'.maxIterations
  dumped (schema : Schema) (ts : List Tuple) : O (.dump schema ts) (.dump schema ts)
  described (name : String) (schema : Schema) : O (.describe name schema) (.describe name schema)
  /-- A name is bound in both sessions or in neither. -/
  resolve {s s' : Session} (h : R s s') (name : String) :
    Alike (fun q q' => q.schema = q'.schema ∧ O (.explain name q) (.explain name q'))
      (s.bindings.resolve name) (s'.bindings.resolve name)
  /-- An expression has the same tuples in both sessions. -/
  tuplesOf {s s' : Session} (h : R s s') (x : Expr) :
    Alike (fun p p' => p.1.schema = p'.1.schema ∧ p.2 = p'.2) (s.tuplesOf c x).1
        (s'.tuplesOf c' x).1 ∧
      R (s.tuplesOf c x).2 (s'.tuplesOf c' x).2
  assign {s s' : Session} (h : R s s') (name : String) (x : Expr) :
    (s.assign c name x).Related R O (s'.assign c' name x)

variable {c c' : Settings} {R : Session → Session → Prop} {O : Output → Output → Prop}
  {s s' : Session}

namespace Outcome.Related

variable {o o' : Outcome}

theorem failed (h : R s s') (e : Error) : Related R O (.failed e s) (.failed e s') :=
  ⟨h, .nil, rfl⟩

theorem completed (h : R s s') : Related R O (.completed s) (.completed s') := ⟨h, .nil, rfl⟩

theorem emitted (h : R s s') {out out' : Output} (hout : O out out') :
    Related R O (.emitted out s) (.emitted out' s') := ⟨h, .cons hout .nil, rfl⟩

theorem andThen (h : o.Related R O o') {next next' : Session → Outcome}
    (hnext : ∀ s s', R s s' → (next s).Related R O (next' s')) :
    (o.andThen next).Related R O (o'.andThen next') := by
  by_cases hend : o.ending = .completed
  · have hend' : o'.ending = .completed := h.ending.symm.trans hend
    have hrest := hnext _ _ h.sessions
    rw [andThen_of_completed hend, andThen_of_completed hend']
    exact ⟨hrest.sessions, List.rel_append h.outputs hrest.outputs, hrest.ending⟩
  · have hend' : o'.ending ≠ .completed := fun h' => hend (h.ending.trans h')
    rw [andThen_of_not_completed hend, andThen_of_not_completed hend']
    exact h

end Outcome.Related

namespace Simulation

/-! ## Actions -/

theorem dump (h : Simulation c c' R O) (hs : R s s') (x : Expr) :
    (s.dump .list c x).Related R O (s'.dump .list c' x) := by
  obtain ⟨htuples, hsession⟩ := h.tuplesOf hs x
  rw [Session.dump_list, Session.dump_list]
  match ht : s.tuplesOf c x, ht' : s'.tuplesOf c' x with
  | (outcome, t), (outcome', t') =>
    rw [ht, ht'] at htuples hsession
    rcases htuples.cases with ⟨e, ho, ho'⟩ | ⟨⟨q, ts⟩, ⟨q', ts'⟩, ho, ho', hschema, hts⟩
    · cases ho
      cases ho'
      exact .failed hsession e
    · cases ho
      cases ho'
      have hts : ts = ts' := hts
      have hschema : q.schema = q'.schema := hschema
      dsimp only
      rw [hschema, hts]
      exact .emitted hsession (h.dumped _ _)

theorem report (h : Simulation c c' R O) (hs : R s s') (name : String)
    {output output' : Query → Output}
    (houtput : ∀ q q' : Query, q.schema = q'.schema → O (.explain name q) (.explain name q') →
      O (output q) (output' q')) :
    (s.report .list name output).Related R O (s'.report .list name output') := by
  rw [Session.report_list, Session.report_list]
  rcases (h.resolve hs name).cases with ⟨e, hb, hb'⟩ | ⟨q, q', hb, hb', hschema, hexplain⟩
  · rw [hb, hb']
    exact .failed hs e
  · rw [hb, hb']
    exact .emitted hs (houtput q q' hschema hexplain)

/-- A condition is tested with the same verdict. -/
theorem test (h : Simulation c c' R O) (hs : R s s') (condition : Expr) (finished : Nat) :
    (s.test c condition finished).1 = (s'.test c' condition finished).1 ∧
      R (s.test c condition finished).2 (s'.test c' condition finished).2 := by
  obtain ⟨htuples, hsession⟩ := h.tuplesOf hs condition
  refine ⟨?_, hsession⟩
  unfold Session.test
  dsimp only
  rw [h.maxIterations]
  rcases htuples.cases with ⟨e, ho, ho'⟩ | ⟨⟨q, ts⟩, ⟨q', ts'⟩, ho, ho', -, hts⟩
  · rw [ho, ho']
  · have hts : ts = ts' := hts
    rw [ho, ho', hts]
    rfl

/-- **A statement that is no loop goes alike.** -/
theorem simple (h : Simulation c c' R O) {st : Statement} (hst : st.isLoop = false)
    (passes : Nat) (hs : R s s') : (st.run c passes s).Related R O (st.run c' passes s') := by
  cases st with
  | assign name x => exact h.assign hs name x
  | dump x => exact h.dump hs x
  | describe name =>
    refine h.report hs name fun q q' hschema _ => ?_
    rw [hschema]
    exact h.described name _
  | explain name => exact h.report hs name fun _ _ _ hexplain => hexplain
  | doWhile => cases hst

/-! ## Runs -/

/-- Passes of a loop, if the body goes alike. -/
theorem loop (h : Simulation c c' R O) {body body' : Session → Outcome}
    (hbody : ∀ s s', R s s' → (body s).Related R O (body' s')) (condition : Expr)
    (passes finished : Nat) (hs : R s s') :
    (Session.loop c body condition passes finished s).Related R O
      (Session.loop c' body' condition passes finished s') := by
  induction passes generalizing finished s s' with
  | zero => exact ⟨hs, .nil, rfl⟩
  | succ passes ih =>
    rw [Session.loop_succ, Session.loop_succ]
    refine (hbody s s' hs).andThen fun t t' ht => ?_
    obtain ⟨hverdict, hsession⟩ := h.test ht condition finished
    match hv : t.test c condition finished, hv' : t'.test c' condition finished with
    | (verdict, u), (verdict', u') =>
      rw [hv, hv'] at hverdict hsession
      cases hverdict
      match verdict with
      | .error e => exact .failed hsession e
      | .ok false => exact .completed hsession
      | .ok true => exact ih (finished + 1) hsession

/-- Statements go alike, loops among them. -/
theorem statements (h : Simulation c c' R O) (passes : Nat) :
    (∀ (st : Statement) (s s' : Session), R s s' →
      (st.run c passes s).Related R O (st.run c' passes s')) ∧
    ∀ (program : List Statement) (s s' : Session), R s s' →
      (Statement.runAll c passes program s).Related R O
        (Statement.runAll c' passes program s') := by
  apply Statement.induction
  case simple =>
    intro st hst s s' hs
    exact h.simple hst passes hs
  case doWhile =>
    intro body condition ih s s' hs
    rw [Statement.run_doWhile, Statement.run_doWhile]
    exact h.loop ih condition passes 0 hs
  case nil =>
    intro s s' hs
    exact .completed hs
  case cons =>
    intro st rest hst hrest s s' hs
    exact (hst s s' hs).andThen hrest

/-- **An action of a run goes alike.** -/
theorem action (h : Simulation c c' R O) (action : Action) (hs : R s s') :
    (action.run c s).Related R O (action.run c' s') := by
  cases action with
  | statement st => exact (h.statements 0).1 st s s' hs
  | test condition finished =>
    obtain ⟨hverdict, hsession⟩ := h.test hs condition finished
    show (s.testOutcome c condition finished).Related R O (s'.testOutcome c' condition finished)
    unfold Session.testOutcome
    match hv : s.test c condition finished, hv' : s'.test c' condition finished with
    | (verdict, u), (verdict', u') =>
      rw [hv, hv'] at hverdict hsession
      cases hverdict
      cases verdict with
      | error e => exact .failed hsession e
      | ok again => exact .completed hsession

/-- **A program goes alike from related sessions.** -/
theorem run (h : Simulation c c' R O) (passes : Nat) (program : Program) (hs : R s s') :
    (program.run c passes s).Related R O (program.run c' passes s') :=
  (h.statements passes).2 program s s' hs

end Simulation

/-! ## Programs one behind the other -/

/-- The session after programs were run one behind the other, however they ended. -/
def Session.runEach (c : Settings) (passes : Nat) (programs : List Program) (s : Session) :
    Session :=
  programs.foldl (fun s program => (program.run c passes s).session) s

/-- **Related sessions are related behind any programs.** -/
theorem Simulation.runEach (h : Simulation c c' R O) (passes : Nat) (programs : List Program)
    (hs : R s s') : R (s.runEach c passes programs) (s'.runEach c' passes programs) := by
  induction programs generalizing s s' with
  | nil => exact hs
  | cons program programs ih => exact ih (h.run passes program hs).sessions

end BagQuery
