import BagQuery.Proofs.EagerStore
import BagQuery.Proofs.Simulation
import BagQuery.Proofs.StoreReads

/-!
# Lazy runs and the store

A lazy session binds names to queries over files and rows, since analysis makes no scans and there
are none to start with.  So nothing is read when tuples are taken, and nothing is removed when a
name is bound again, whatever the store holds and under whatever keys.  Nor does it matter what the
store holds: sessions that bind the same queries go alike over any two databases
(`Session.Aside.simulation`), and leave both of them as they were.

`Program.lazy_leaves_store` says so of the runs that start without bindings.
-/

namespace BagQuery

open Attempt

/-- A plan that is put out has no scans in it. -/
def Output.ScanFree : Output → Prop
  | .dump .. | .describe .. => True
  | .explain _ q => q.ScanFree

namespace Session

/-- A session over a database in which nothing is bound. -/
def unbound (db : Database) : Session := { Session.fresh with database := db }

/-- The tuples of an expression without scans are taken without a look at the store. -/
theorem tuplesOf_of_scanFree (c : Settings) {x : Expr} {s : Session}
    (h : ∀ q, x.analyze s.bindings = .ok q → q.ScanFree) :
    s.tuplesOf c x =
      (x.analyze s.bindings >>= fun q => (q.drain c.env .empty).outcome.map (q, ·), s) := by
  unfold tuplesOf
  cases hq : x.analyze s.bindings with
  | error e => rfl
  | ok q =>
    have hfree := h q hq
    dsimp only [Database.drain]
    rw [hfree.drain_eq c.env .empty s.database.store, hfree.scans_drain]
    rfl

/-- Both sessions bind the same queries, and none of these is over a store.  At the side of one is
the database `db`, at that of the other `db'`. -/
structure Aside (db db' : Database) (s s' : Session) : Prop where
  bindings : s'.bindings = s.bindings
  scanFree : ∀ name q, s.bindings.get? name = some q → q.ScanFree
  database : s.database = db
  database' : s'.database = db'

namespace Aside

variable {c c' : Settings} {db db' : Database} {s s' : Session}

theorem unbound (db db' : Database) : Aside db db' (.unbound db) (.unbound db') :=
  ⟨rfl, nofun, rfl, rfl⟩

theorem analyze (h : Aside db db' s s') {x : Expr} :
    ∀ q, x.analyze s.bindings = .ok q → q.ScanFree :=
  fun _ hq => Expr.scanFree_of_analyze h.scanFree hq

/-- **Nothing is removed where a name is bound again.** -/
theorem bind (c c' : Settings) (h : Aside db db' s s') (name : String) {q : Query}
    (hq : q.ScanFree) :
    Aside db db' (s.bind c name q) (s'.bind c' name q) := by
  have hscan : ∀ key schema, s.bindings.get? name ≠ some (.scan key schema) :=
    fun key schema hscan => (h.scanFree name _ hscan).ne_scan key schema rfl
  have hscan' : ∀ key schema, s'.bindings.get? name ≠ some (.scan key schema) := by
    rw [h.bindings]
    exact hscan
  refine ⟨?_, fun other r hr => ?_, ?_, ?_⟩
  · rw [bindings_bind, bindings_bind, h.bindings]
  · rw [bindings_bind] at hr
    by_cases hother : other = name
    · subst hother
      rw [Dictionary.get?_insert_self] at hr
      cases hr
      exact hq
    · rw [Dictionary.get?_insert_of_ne hother] at hr
      exact h.scanFree other r hr
  · rw [database_bind_of_no_scan hscan, h.database]
  · rw [database_bind_of_no_scan hscan', h.database']

/-- **Lazy runs go the same way over any two databases**, and also for any two owners and runs. -/
theorem simulation (hmode : c.mode = .lazy) (hmode' : c'.mode = .lazy) (henv : c.env = c'.env)
    (hlimit : c.maxIterations = c'.maxIterations) (db db' : Database) :
    Simulation c c' (Aside db db') fun out out' => out' = out ∧ out.ScanFree where
  maxIterations := hlimit
  dumped _ _ := ⟨rfl, trivial⟩
  described _ _ := ⟨rfl, trivial⟩
  resolve h name := by
    rw [h.bindings]
    refine (Alike.self _).mono ?_
    rintro q _ ⟨hq, rfl⟩
    exact ⟨rfl, rfl, h.scanFree name q (Expr.resolve_eq_ok_iff.1 hq)⟩
  tuplesOf {s s'} h x := by
    have hfree' : ∀ q, x.analyze s'.bindings = .ok q → q.ScanFree := by
      rw [h.bindings]
      exact h.analyze
    rw [tuplesOf_of_scanFree c h.analyze, tuplesOf_of_scanFree c' hfree', h.bindings, henv]
    refine ⟨(Alike.self _).mono ?_, h⟩
    rintro p _ ⟨-, rfl⟩
    exact ⟨rfl, rfl⟩
  assign {s s'} h name x := by
    unfold Session.assign
    rw [hmode, hmode', h.bindings]
    cases hq : x.analyze s.bindings with
    | error e => exact .failed h e
    | ok q => exact .completed (h.bind c c' name (h.analyze q hq))

end Aside

end Session

/-- **A lazy run leaves the store alone.**  Over any database, the store and its traffic are at
every step what they were at the start: nothing is scanned, written or removed; and no name is
bound to a query with a scan in it.  Over another database the run ends in the same way, with the
same outputs and bindings. -/
theorem Program.lazy_leaves_store {c : Settings} (h : c.mode = .lazy) (passes : Nat)
    (program : Program) (db : Database) :
    let o := program.run c passes (.unbound db)
    o.session.database = db ∧
      (∀ step ∈ program.trace c passes (.unbound db), (step.after c).session.database = db ∧
        ∀ name q, (step.after c).session.bindings.get? name = some q → q.ScanFree) ∧
      ∀ db', let o' := program.run c passes (.unbound db')
        o'.ending = o.ending ∧ o'.outputs = o.outputs ∧
          o'.session.bindings = o.session.bindings := by
  have hsim := Session.Aside.simulation h h rfl rfl
  have hstep : ∀ step : Step, Session.Aside db db step.before step.before →
      Session.Aside db db (step.after c).session (step.after c).session :=
    fun step hbefore => ((hsim db db).action step.action hbefore).sessions
  have hchain := (program.covers_trace c passes (.unbound db)).chain
  obtain ⟨hsteps, hfinal⟩ :=
    hchain.invariant (I := fun s => Session.Aside db db s s) hstep (.unbound db db)
  refine ⟨hfinal.database, fun step hmem => ?_, fun db' => ?_⟩
  · have hafter := hsteps step hmem
    exact ⟨hafter.database, hafter.scanFree⟩
  · have hrelated := (hsim db db').run passes program (.unbound db db')
    refine ⟨hrelated.ending.symm, ?_, hrelated.sessions.bindings⟩
    exact List.forall₂_eq_eq_eq ▸ hrelated.outputs.flip.imp fun _ _ hout => hout.1

/-! ### A store with the keys of the run in it -/

/-- The names of `Program.selfAssignment` are bound again in lazy mode, while relations are stored
under the keys that an eager run would give them. -/
theorem Program.lazy_leaves_store_sameKeys :
    let c : Settings := { Settings.eager with mode := .lazy }
    let held : Relation := ⟨⟨[⟨"a", .int⟩], by decide⟩, .ofList [⟨[.int 7]⟩]⟩
    let db : Database :=
      ⟨(Dictionary.single (c.key "x#1" 1) held).insert (c.key "x#1" 2) held, ⟨0, 2, 0⟩⟩
    let o := selfAssignment.run c 1 (.unbound db)
    c.mode = .lazy ∧ o.session.database = db ∧
      o.ending = .failed (.unknownSymbol "y") ∧
      (selfAssignment.run c 1 (.unbound .fresh)).session.bindings = o.session.bindings := by
  intro c held db o
  obtain ⟨hdatabase, -, hother⟩ := lazy_leaves_store (c := c) rfl 1 selfAssignment db
  exact ⟨rfl, hdatabase, by decide +kernel, (hother .fresh).2.2⟩

end BagQuery
