import BagQuery.Analysis
import BagQuery.Evaluation
import BagQuery.Output
import BagQuery.Program.Parser

/-!
# Sessions

A session is what statements change: the bindings, the database, and the number of relations that
were stored for names.  In lazy mode a name is bound to the query of its expression.  In eager
mode the query is evaluated at once, its tuples are stored under a key of their own, and the name
is bound to a scan of that key; the relation of the binding that is displaced is dropped.

Statements run in order up to the first failure, and keep what the statements before it did.  A
loop runs its body until its condition is empty.  Since that may never be, a run is given a bound
on the passes of each loop and says when it was not enough (`Ending.unfinished`); the iteration
limit of the settings is a rule of the language and no such bound.

What a statement puts out goes to a `Sink`, which may refuse it, and then the statement fails.
`Statement.runInto`, `Program.runInto` and `Program.runTextInto` run into any sink; a list takes
every output, and `Statement.run`, `Program.run` and `Program.runText` run into a list.
-/

namespace BagQuery

open Text

/-- When the query of an assignment is evaluated. -/
inductive Mode where
  /-- When a statement needs tuples. -/
  | lazy
  /-- At the assignment. -/
  | eager
deriving DecidableEq, Repr

/-- What a program is run with. -/
structure Settings where
  mode : Mode
  /-- The owner of the relations that are stored for names. -/
  owner : String
  /-- The run, which sets its relations apart from those of other runs. -/
  runId : String
  /-- The number of passes after which a loop fails. -/
  maxIterations : Option Nat
  env : Environment

/-- The bound on the passes of each loop that a run is given: all that the iteration limit allows,
or a number that no run gets to. -/
def Settings.passes (c : Settings) : Nat :=
  match c.maxIterations with
  | some limit => max 1 limit
  | none => UInt64.size

/-- What statements change. -/
structure Session where
  bindings : Bindings
  database : Database
  /-- The number of relations that were stored for names so far. -/
  materialized : Nat

/-- A session in which nothing happened. -/
def Session.fresh : Session := ⟨.empty, .fresh, 0⟩

/-- How a run ended. -/
inductive Ending where
  | completed
  | failed (e : Error)
  /-- A loop took more passes than the run was given. -/
  | unfinished
deriving DecidableEq, Repr

/-- What receives the outputs of a run: by what it took before, it takes the next one or says why
it cannot. -/
structure Sink where
  refusal? : (taken : List Output) → (next : Output) → Option String

namespace Sink

/-- A list takes every output. -/
def list : Sink := ⟨fun _ _ => none⟩

/-- The sink that took some outputs more. -/
def after (sink : Sink) (outputs : List Output) : Sink :=
  ⟨fun taken => sink.refusal? (outputs ++ taken)⟩

end Sink

/-- What a run leaves. -/
structure Outcome where
  session : Session
  outputs : List Output
  ending : Ending

namespace Outcome

/-- Nothing was put out and nothing failed. -/
def completed (s : Session) : Outcome := ⟨s, [], .completed⟩

/-- A failure that puts out nothing. -/
def failed (e : Error) (s : Session) : Outcome := ⟨s, [], .failed e⟩

/-- One thing was put out. -/
def emitted (o : Output) (s : Session) : Outcome := ⟨s, [o], .completed⟩

/-- One thing was offered to a sink.  A refusal is a failure. -/
def offered (sink : Sink) (o : Output) (s : Session) : Outcome :=
  match sink.refusal? [] o with
  | none => .emitted o s
  | some reason => .failed (.output reason) s

theorem offered_session (sink : Sink) (o : Output) (s : Session) :
    (offered sink o s).session = s := by
  unfold offered
  split <;> rfl

/-- Goes on where a run was completed. -/
def andThen (o : Outcome) (next : Session → Outcome) : Outcome :=
  match o.ending with
  | .completed =>
    let rest := next o.session
    { rest with outputs := o.outputs ++ rest.outputs }
  | _ => o

end Outcome

namespace Session

/-- Drops the relation of a displaced binding if it was stored by this run.

The relation is only to be dropped when no other live query refers to it, and here none does.  In
eager mode an expression is drained within its assignment and not kept, a name is bound to a scan
of its own, and the copy of the bindings that a condition is analyzed in is gone before the next
pass; in lazy mode nothing is stored.  So nobody counts here who else holds the displaced query.
That a caller keeps a copy of the bindings from one run to the next is left out. -/
def release (c : Settings) (displaced : Option Query) (s : Session) : Session :=
  match displaced with
  | some (.scan key _) =>
    if key.owner = c.owner ∧ key.program = c.runId then
      { s with database := s.database.remove key }
    else s
  | _ => s

/-- Binds a name and releases what it was bound to. -/
def bind (c : Settings) (name : String) (q : Query) (s : Session) : Session :=
  let displaced := s.bindings.get? name
  release c displaced { s with bindings := s.bindings.insert name q }

/-- The key of the relation that is stored next for a name. -/
def nextKey (c : Settings) (name : String) (s : Session) : Key :=
  ⟨c.owner, c.runId, name ++ "#" ++ Numeral.ofNat (s.materialized + 1)⟩

/-- Stores the tuples of a query for a name; gives the scan of them. -/
def materialize (c : Settings) (name : String) (q : Query) (s : Session) :
    Except Error Query × Session :=
  let key := s.nextKey c name
  let s := { s with materialized := s.materialized + 1 }
  match s.database.evaluate c.env (.replace key q) with
  | (.error e, database) => (.error e, { s with database })
  | (.ok _, database) => (Query.makeScan database.store key, { s with database })

/-- Runs an assignment. -/
def assign (c : Settings) (name : String) (expr : Expr) (s : Session) : Outcome :=
  match expr.analyze s.bindings with
  | .error e => .failed e s
  | .ok q =>
    match c.mode with
    | .lazy => .completed (s.bind c name q)
    | .eager =>
      match s.materialize c name q with
      | (.error e, s) => .failed e s
      | (.ok scan, s) => .completed (s.bind c name scan)

/-- The query of an expression and all its tuples. -/
def tuplesOf (c : Settings) (expr : Expr) (s : Session) :
    Except Error (Query × List Tuple) × Session :=
  match expr.analyze s.bindings with
  | .error e => (.error e, s)
  | .ok q =>
    let (tuples, database) := s.database.drain c.env q
    (tuples.map (q, ·), { s with database })

/-- Puts out the tuples of an expression. -/
def dump (sink : Sink) (c : Settings) (expr : Expr) (s : Session) : Outcome :=
  match s.tuplesOf c expr with
  | (.error e, s) => .failed e s
  | (.ok (q, tuples), s) => .offered sink (.dump q.schema tuples) s

/-- Puts out something about what a name is bound to. -/
def report (sink : Sink) (name : String) (output : Query → Output) (s : Session) : Outcome :=
  match s.bindings.resolve name with
  | .error e => .failed e s
  | .ok q => .offered sink (output q) s

/-- Runs passes of a loop, `finished` of which are over.  `passes` bounds those to come. -/
def loopInto (c : Settings) (body : Sink → Session → Outcome) (condition : Expr) :
    (passes : Nat) → (finished : Nat) → Sink → Session → Outcome
  | 0, _, _, s => ⟨s, [], .unfinished⟩
  | passes + 1, finished, sink, s =>
    let pass := body sink s
    pass.andThen fun s =>
      match s.tuplesOf c condition with
      | (.error e, s) => .failed e s
      | (.ok (_, []), s) => .completed s
      | (.ok (_, _ :: _), s) =>
        let next := loopInto c body condition passes (finished + 1) (sink.after pass.outputs)
        match c.maxIterations with
        | some limit => if limit ≤ finished + 1 then .failed (.iterationLimit limit) s else next s
        | none => next s

/-- Runs passes of a loop into a list. -/
def loop (c : Settings) (body : Session → Outcome) (condition : Expr) (passes finished : Nat) :
    Session → Outcome :=
  loopInto c (fun _ => body) condition passes finished .list

end Session

mutual

/-- Runs a statement; `passes` bounds the passes of each loop. -/
def Statement.runInto (c : Settings) (passes : Nat) : Statement → Sink → Session → Outcome
  | .assign target expr => fun _ => Session.assign c target expr
  | .dump expr => fun sink => Session.dump sink c expr
  | .describe name => fun sink => Session.report sink name fun q => .describe name q.schema
  | .explain name => fun sink => Session.report sink name fun q => .explain name q
  | .doWhile body condition =>
    Session.loopInto c (Statement.runAllInto c passes body) condition passes 0

/-- Runs statements in order. -/
def Statement.runAllInto (c : Settings) (passes : Nat) :
    List Statement → Sink → Session → Outcome
  | [] => fun _ => .completed
  | statement :: rest => fun sink s =>
    let first := statement.runInto c passes sink s
    first.andThen (Statement.runAllInto c passes rest (sink.after first.outputs))

end

/-- Runs a program. -/
def Program.runInto (c : Settings) (passes : Nat) (program : Program) (sink : Sink) (s : Session) :
    Outcome :=
  Statement.runAllInto c passes program sink s

/-- Runs program text; text that cannot be read changes nothing. -/
def Program.runTextInto (c : Settings) (passes : Nat) (text : String) (sink : Sink) (s : Session) :
    Outcome :=
  match Program.parse text with
  | .error refusal => .failed refusal.toError s
  | .ok program => program.runInto c passes sink s

/-! ## Runs into a list -/

/-- Runs a statement into a list. -/
def Statement.run (c : Settings) (passes : Nat) (statement : Statement) : Session → Outcome :=
  statement.runInto c passes .list

/-- Runs statements in order into a list. -/
def Statement.runAll (c : Settings) (passes : Nat) (statements : List Statement) :
    Session → Outcome :=
  Statement.runAllInto c passes statements .list

/-- Runs a program into a list. -/
def Program.run (c : Settings) (passes : Nat) (program : Program) (s : Session) : Outcome :=
  program.runInto c passes .list s

/-- Runs program text into a list. -/
def Program.runText (c : Settings) (passes : Nat) (text : String) (s : Session) : Outcome :=
  Program.runTextInto c passes text .list s

/-- What a list took before does not matter. -/
theorem Sink.after_list (outputs : List Output) : Sink.list.after outputs = .list := rfl

namespace Session

variable {c : Settings}

theorem loopInto_list {body : Sink → Session → Outcome} (condition : Expr) (passes finished : Nat)
    (s : Session) : loopInto c body condition passes finished .list s =
      loop c (body .list) condition passes finished s := by
  unfold loop
  induction passes generalizing finished s with
  | zero => rfl
  | succ passes ih =>
    rw [loopInto, loopInto]
    simp only [Sink.after_list, ih]

theorem loop_passes (c : Settings) (body : Session → Outcome) (condition : Expr)
    (passes finished : Nat) (s : Session) :
    loop c body condition (passes + 1) finished s = (body s).andThen fun s =>
      match s.tuplesOf c condition with
      | (.error e, s) => .failed e s
      | (.ok (_, []), s) => .completed s
      | (.ok (_, _ :: _), s) =>
        match c.maxIterations with
        | some limit =>
          if limit ≤ finished + 1 then .failed (.iterationLimit limit) s
          else loop c body condition passes (finished + 1) s
        | none => loop c body condition passes (finished + 1) s := rfl

theorem dump_list (c : Settings) (expr : Expr) (s : Session) :
    s.dump .list c expr = match s.tuplesOf c expr with
      | (.error e, s) => .failed e s
      | (.ok (q, tuples), s) => .emitted (.dump q.schema tuples) s := rfl

theorem report_list (name : String) (output : Query → Output) (s : Session) :
    s.report .list name output = match s.bindings.resolve name with
      | .error e => .failed e s
      | .ok q => .emitted (output q) s := rfl

end Session

namespace Statement

variable (c : Settings) (passes : Nat)

theorem run_assign (target : String) (expr : Expr) :
    (assign target expr).run c passes = Session.assign c target expr := rfl

theorem run_dump (expr : Expr) : (dump expr).run c passes = Session.dump .list c expr := rfl

theorem run_describe (name : String) :
    (describe name).run c passes =
      Session.report .list name fun q => .describe name q.schema := rfl

theorem run_explain (name : String) :
    (explain name).run c passes = Session.report .list name fun q => .explain name q := rfl

theorem run_doWhile (body : List Statement) (condition : Expr) :
    (doWhile body condition).run c passes =
      Session.loop c (runAll c passes body) condition passes 0 :=
  funext fun s => Session.loopInto_list condition passes 0 s

theorem runAll_cons (st : Statement) (rest : List Statement) (s : Session) :
    runAll c passes (st :: rest) s = (st.run c passes s).andThen (runAll c passes rest) := rfl

end Statement

end BagQuery
