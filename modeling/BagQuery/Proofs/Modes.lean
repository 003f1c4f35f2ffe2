import BagQuery.Proofs.AnalysisEquivalence
import BagQuery.Proofs.EagerStore

/-!
# Lazy and eager mode

A lazy run and an eager run of one program go side by side.  In the lazy session a name is bound to
a query over files and rows, in the eager session to a scan of what that query yielded when it was
assigned; the two are equivalent queries, on the empty store and on the store of the eager run
(`Session.Twins`).  Every action takes such a pair of sessions to such a pair, and ends alike in
both modes: analysis looks at schemas only, and a condition is empty in both modes or in neither.

There is one way out.  Eager mode reads a file where it is assigned, lazy mode where it is needed.
If a file cannot be read to its end, the eager run fails there and the lazy run may go on, so a
comparison of the two is a `Lockstep` up to that.  The modes agree on a program whose files are
readable, and on one that is completed in eager mode.  A limit would be another way out: it
depends on the order of tuples.
-/

namespace BagQuery

open Attempt

/-! ## Programs without limits -/

mutual

/-- The expressions in a statement. -/
def Statement.exprs : Statement → List Expr
  | .assign _ expr => [expr]
  | .dump expr => [expr]
  | .describe _ => []
  | .explain _ => []
  | .doWhile body condition => Statement.exprsAll body ++ [condition]

/-- The expressions in statements. -/
def Statement.exprsAll : List Statement → List Expr
  | [] => []
  | statement :: rest => statement.exprs ++ Statement.exprsAll rest

end

/-- No expression of the program has a limit. -/
def Program.LimitFree (program : Program) : Prop :=
  ∀ x ∈ Statement.exprsAll program, x.LimitFree

/-- Every file that the program loads can be read to its end. -/
def Program.Readable (env : Environment) (program : Program) : Prop :=
  ∀ x ∈ Statement.exprsAll program, x.Readable env

/-- The settings of a lazy run and an eager run on the same files and with the same limit. -/
structure Settings.Modes (c c' : Settings) : Prop where
  lazy : c.mode = .lazy
  eager : c'.mode = .eager
  env : c.env = c'.env
  maxIterations : c.maxIterations = c'.maxIterations

/-! ## Twin sessions -/

/-- The outputs are of one kind and say the same, up to the order of tuples and to the plan that
is explained. -/
inductive Output.Agree : Output → Output → Prop
  | dump (schema : Schema) {ts us : List Tuple} : ts.Perm us →
      Agree (.dump schema ts) (.dump schema us)
  | describe (name : String) (schema : Schema) : Agree (.describe name schema) (.describe name schema)
  | explain (name : String) (q q' : Query) : Agree (.explain name q) (.explain name q')

namespace Session

/-- A lazy session, and an eager session under the settings `c` that binds the same names to
equivalent queries. -/
structure Twins (c : Settings) (s s' : Session) : Prop where
  empty : s.database.store = .empty
  stored : s'.OneRelationPerName c
  bindings : s.bindings.Equivalent c.env .empty s'.database.store s'.bindings

variable {c c' : Settings} {s s' : Session}

theorem Twins.fresh (c : Settings) : Twins c .fresh .fresh :=
  ⟨rfl, .fresh c, fun _ => .none⟩

theorem Twins.reading (h : Twins c s s') (n n' : Nat) : Twins c (s.reading n) (s'.reading n') :=
  ⟨h.empty, h.stored.reading n', h.bindings⟩

/-- An expression is analyzed alike in both sessions. -/
theorem Twins.analyze (h : Twins c s s') {x : Expr} (hlimit : x.LimitFree) :
    Alike (x.Analyzed c.env .empty s'.database.store) (x.analyze s.bindings)
      (x.analyze s'.bindings) :=
  Expr.alike_analyze .empty h.bindings x hlimit

/-- The tuples of an expression are the same in both sessions, or a file cannot be read. -/
theorem Twins.tuplesOf (hmodes : c.Modes c') (h : Twins c' s s') {x : Expr}
    (hlimit : x.LimitFree) :
    Alike (fun p p' => p.1.schema = p'.1.schema ∧ p.2.Perm p'.2) (s.tuplesOf c x).1
        (s'.tuplesOf c' x).1 ∨
      ¬x.Readable c'.env ∧ ∃ e, (s'.tuplesOf c' x).1 = .error e := by
  rw [tuplesOf_outcome, tuplesOf_outcome, hmodes.env, h.empty]
  rcases (h.analyze hlimit).cases with ⟨e, hs, hs'⟩ | ⟨q, q', hs, hs', hq⟩
  · left
    rw [hs, hs']
    exact rfl
  rw [hs, hs']
  rcases hq with hq | ⟨hread, hfail⟩
  · left
    obtain ⟨ts, ts', hts, hts', hperm⟩ := hq.tuples
    have hdrain := Query.yields_iff.1 hts
    have hdrain' := Query.yields_iff.1 hts'
    show Alike _ ((q.drain c'.env .empty).outcome.map (q, ·))
      ((q'.drain c'.env s'.database.store).outcome.map (q', ·))
    rw [hdrain, hdrain']
    exact ⟨hq.schema, hperm⟩
  · right
    refine ⟨hread, ?_⟩
    show ∃ e, (q'.drain c'.env s'.database.store).outcome.map (q', ·) = .error e
    cases hdrain : (q'.drain c'.env s'.database.store).outcome with
    | error e => exact ⟨e, rfl⟩
    | ok ts => exact absurd (Query.yields_iff.2 hdrain) (hfail ts)

theorem verdict_perm (limit? : Option Nat) (finished : Nat) {ts us : List Tuple}
    (h : ts.Perm us) : verdict limit? finished ts = verdict limit? finished us := by
  cases ts with
  | nil => rw [List.nil_perm.1 h]
  | cons t ts =>
    cases us with
    | nil => cases List.perm_nil.1 h
    | cons u us => rfl

/-- A condition is tested alike in both sessions, or a file cannot be read. -/
theorem Twins.test (hmodes : c.Modes c') (h : Twins c' s s') {condition : Expr}
    (hlimit : condition.LimitFree) (finished : Nat) :
    Alike Eq (s.test c condition finished).1 (s'.test c' condition finished).1 ∨
      ¬condition.Readable c'.env ∧ ∃ e, (s'.test c' condition finished).1 = .error e := by
  unfold Session.test
  rw [hmodes.maxIterations]
  rcases h.tuplesOf hmodes hlimit with halike | ⟨hread, e, he⟩
  · left
    apply halike.bind
    rintro ⟨q, ts⟩ ⟨q', ts'⟩ ⟨-, hperm⟩
    dsimp only
    rw [verdict_perm _ finished hperm]
    exact (Alike.self _).mono fun _ _ hab => hab.2
  · right
    exact ⟨hread, e, by rw [he]; rfl⟩

/-! ### Assignments -/

/-- What a lazy session binds is no scan, since its store is empty. -/
theorem Twins.no_scan (h : Twins c s s') (name : String) (key : Key) (schema : Schema) :
    s.bindings.get? name ≠ some (.scan key schema) := by
  intro hscan
  rcases h.bindings.cases name with ⟨hb, -⟩ | ⟨q, q', hb, -, hq⟩
  · rw [hscan] at hb
    cases hb
  · rw [hscan] at hb
    cases hb
    obtain ⟨ts, _, hts, -, -⟩ := hq.tuples
    cases hts

/-- Bindings after an assignment, if the scan of the new relation is related to the query and a
relation that stays is related as before. -/
theorem related_assigned (c : Settings) {B : Store → Query → Query → Prop}
    (hstored : s'.OneRelationPerName c')
    (h : s.bindings.Related (B s'.database.store) s'.bindings) (name : String) (q : Query)
    (schema : Schema) (bag : Bag)
    (hscan : ∀ {store : Store} {r : Query} {key : Key} {old : Schema},
      B s'.database.store r (.scan key old) →
        store.get? key = s'.database.store.get? key → B store r (.scan key old))
    (hnew : B (s'.assigned c' name schema bag).database.store q
      (.scan (s'.nextKey c' name) schema)) :
    (s.bind c name q).bindings.Related (B (s'.assigned c' name schema bag).database.store)
      (s'.assigned c' name schema bag).bindings := by
  intro x
  rw [bindings_bind]
  by_cases hx : x = name
  · subst hx
    rw [Dictionary.get?_insert_self, get?_assigned_self]
    exact .some hnew
  · rw [Dictionary.get?_insert_of_ne hx, get?_assigned_of_ne hx]
    rcases h.cases x with ⟨hb, hb'⟩ | ⟨r, r', hb, hb', hr⟩
    · rw [hb, hb']
      exact .none
    · rw [hb, hb']
      obtain ⟨n, old, -, rfl⟩ := hstored.bound x r' hb'
      exact .some (hscan hr (hstored.store_assigned_of_bound hx hb' schema bag))

/-- **An assignment keeps sessions twins**: one binds the query, the other a scan of the tuples
that an equivalent query yields. -/
theorem Twins.assigned (c : Settings) (h : Twins c' s s') (name : String) {q q' : Query}
    (hq : q.Equivalent c'.env .empty s'.database.store q') {us : List Tuple}
    (hus : q'.Yields c'.env s'.database.store us) :
    Twins c' (s.bind c name q) (s'.assigned c' name q'.schema (.ofList us)) := by
  refine ⟨?_, h.stored.assigned name _ _, ?_⟩
  -- the lazy store stays empty, since no scan is displaced
  · rw [database_bind_of_no_scan (h.no_scan name)]
    exact h.empty
  · exact related_assigned c h.stored h.bindings.related name q _ _
      (fun hr hkey => hr.scan_congr hkey)
      (hq.of_stored hus (h.stored.store_assigned_self name _ _))

end Session

/-! ## Runs side by side -/

/-- A lazy and an eager run end alike, with twin sessions and with outputs that say the same. -/
structure Outcome.Agree (c : Settings) (o o' : Outcome) : Prop where
  sessions : Session.Twins c o.session o'.session
  outputs : List.Forall₂ Output.Agree o.outputs o'.outputs
  ending : o.ending = o'.ending

/-- The runs agree and are at the same places all the time, or `readable` fails and so does the
eager run. -/
def Lockstep (c : Settings) (readable : Prop) (steps steps' : List Step) (o o' : Outcome) : Prop :=
  (o.Agree c o' ∧ steps.map Step.place = steps'.map Step.place) ∨
    ¬readable ∧ ∃ e, o'.ending = .failed e

namespace Lockstep

variable {c c' : Settings} {readable : Prop}

theorem single {place : List Nat} {action action' : Action} {s s' : Session} {o o' : Outcome}
    (h : o.Agree c o') : Lockstep c readable [⟨place, action, s⟩] [⟨place, action', s'⟩] o o' :=
  Or.inl ⟨h, rfl⟩

theorem andThen {steps steps' : List Step} {o o' : Outcome}
    (h : Lockstep c readable steps steps' o o') {next next' : Session → Outcome}
    {more more' : Session → List Step}
    (hnext : ∀ s s', Session.Twins c s s' →
      Lockstep c readable (more s) (more' s') (next s) (next' s')) :
    Lockstep c readable (steps ++ o.stepsThen more) (steps' ++ o'.stepsThen more')
      (o.andThen next) (o'.andThen next') := by
  rcases h with ⟨hagree, hplaces⟩ | ⟨hread, e, he⟩
  · have hending := hagree.ending
    by_cases hend' : o'.ending = .completed
    · have hend : o.ending = .completed := hending.trans hend'
      rw [Outcome.stepsThen_of_completed hend, Outcome.stepsThen_of_completed hend',
        Outcome.andThen_of_completed hend, Outcome.andThen_of_completed hend']
      rcases hnext _ _ hagree.sessions with ⟨hagree₂, hplaces₂⟩ | ⟨hread, e, he⟩
      · refine Or.inl ⟨⟨hagree₂.sessions, ?_, hagree₂.ending⟩, ?_⟩
        · exact List.rel_append hagree.outputs hagree₂.outputs
        · rw [List.map_append, List.map_append, hplaces, hplaces₂]
      · exact Or.inr ⟨hread, e, he⟩
    · have hend : o.ending ≠ .completed := fun h => hend' (hending.symm.trans h)
      rw [Outcome.stepsThen_of_not_completed hend, Outcome.stepsThen_of_not_completed hend',
        Outcome.andThen_of_not_completed hend, Outcome.andThen_of_not_completed hend',
        List.append_nil, List.append_nil]
      exact Or.inl ⟨hagree, hplaces⟩
  · have hend' : o'.ending ≠ .completed := by
      rw [he]
      exact nofun
    rw [Outcome.andThen_of_not_completed hend']
    exact Or.inr ⟨hread, e, he⟩

end Lockstep

/-! ### Statements -/

namespace Session

variable {c c' : Settings} {s s' : Session}

/-- The outcomes agree, or a file of the expression cannot be read and the eager one fails. -/
def AgreeOn (c : Settings) (x : Expr) (o o' : Outcome) : Prop :=
  o.Agree c o' ∨ ¬x.Readable c.env ∧ ∃ e, o'.ending = .failed e

theorem Twins.tuplesOf_session (h : Twins c s s') (d d' : Settings) (x x' : Expr) :
    Twins c (s.tuplesOf d x).2 (s'.tuplesOf d' x').2 := by
  obtain ⟨n, hn⟩ := tuplesOf_reads d x s
  obtain ⟨n', hn'⟩ := tuplesOf_reads d' x' s'
  rw [hn, hn']
  exact h.reading n n'

theorem Twins.dump (hmodes : c.Modes c') (h : Twins c' s s') {x : Expr} (hlimit : x.LimitFree) :
    AgreeOn c' x (s.dump .list c x) (s'.dump .list c' x) := by
  have hsession := h.tuplesOf_session c c' x x
  have htuples := h.tuplesOf hmodes hlimit
  rw [Session.dump_list, Session.dump_list]
  cases hs : s.tuplesOf c x with
  | mk outcome t =>
    cases hs' : s'.tuplesOf c' x with
    | mk outcome' t' =>
      rw [hs, hs'] at hsession htuples
      rcases htuples with halike | ⟨hread, e, he⟩
      · left
        rcases halike.cases with ⟨e, ho, ho'⟩ | ⟨⟨q, ts⟩, ⟨q', ts'⟩, ho, ho', hschema, hperm⟩
        · cases ho
          cases ho'
          exact ⟨hsession, .nil, rfl⟩
        · cases ho
          cases ho'
          refine ⟨hsession, .cons ?_ .nil, rfl⟩
          rw [show q.schema = q'.schema from hschema]
          exact .dump _ hperm
      · right
        cases he
        exact ⟨hread, e, rfl⟩

theorem Twins.report (h : Twins c s s') (name : String) {output output' : Query → Output}
    (houtput : ∀ q q' : Query, q.schema = q'.schema → (output q).Agree (output' q')) :
    (s.report .list name output).Agree c (s'.report .list name output') := by
  rw [Session.report_list, Session.report_list]
  rcases (h.bindings.resolve name).cases with ⟨e, hs, hs'⟩ | ⟨q, q', hs, hs', hq⟩
  · rw [hs, hs']
    exact ⟨h, .nil, rfl⟩
  · rw [hs, hs']
    exact ⟨h, .cons (houtput q q' hq.schema) .nil, rfl⟩

theorem Twins.assign (hmodes : c.Modes c') (h : Twins c' s s') (name : String) {x : Expr}
    (hlimit : x.LimitFree) : AgreeOn c' x (s.assign c name x) (s'.assign c' name x) := by
  unfold Session.assign
  rw [hmodes.lazy, hmodes.eager]
  rcases (h.analyze hlimit).cases with ⟨e, hs, hs'⟩ | ⟨q, q', hs, hs', hq⟩
  · rw [hs, hs']
    exact Or.inl ⟨h, .nil, rfl⟩
  rw [hs, hs']
  dsimp only
  rw [materialize_eq]
  rcases hq with hq | ⟨hread, hfail⟩
  · obtain ⟨ts, ts', -, hts', -⟩ := hq.tuples
    rw [Query.yields_iff.1 hts']
    have htwins := h.reading 0 (q'.drain c'.env s'.database.store).scans
    exact Or.inl ⟨htwins.assigned c name hq hts', .nil, rfl⟩
  · right
    cases hdrain : (q'.drain c'.env s'.database.store).outcome with
    | error e => exact ⟨hread, e, rfl⟩
    | ok ts => exact absurd (Query.yields_iff.2 hdrain) (hfail ts)

end Session

/-! ### Runs -/

section Runs

variable {c c' : Settings} {readable : Prop}

theorem Lockstep.of_agreeOn {x : Expr} {o o' : Outcome} (h : Session.AgreeOn c x o o')
    (hread : readable → x.Readable c.env) (place : List Nat) (action : Action) (s s' : Session) :
    Lockstep c readable [⟨place, action, s⟩] [⟨place, action, s'⟩] o o' := by
  rcases h with hagree | ⟨hx, hfailed⟩
  · exact .single hagree
  · exact Or.inr ⟨fun hall => hx (hread hall), hfailed⟩

/-- A statement that is no loop. -/
theorem Statement.lockstep_simple (hmodes : c.Modes c') {st : Statement} (hst : st.isLoop = false)
    (hlimit : ∀ x ∈ st.exprs, x.LimitFree)
    (hread : readable → ∀ x ∈ st.exprs, x.Readable c'.env) (passes : Nat) (place : List Nat)
    {s s' : Session} (h : Session.Twins c' s s') :
    Lockstep c' readable (st.trace c passes place s) (st.trace c' passes place s')
      (st.run c passes s) (st.run c' passes s') := by
  rw [trace_simple hst, trace_simple hst]
  cases st with
  | assign name x =>
    refine .of_agreeOn (h.assign hmodes name (hlimit x List.mem_cons_self)) ?_ _ _ _ _
    exact fun hall => hread hall x List.mem_cons_self
  | dump x =>
    refine .of_agreeOn (h.dump hmodes (hlimit x List.mem_cons_self)) ?_ _ _ _ _
    exact fun hall => hread hall x List.mem_cons_self
  | describe name =>
    refine .single (h.report name fun q q' hschema => ?_)
    rw [hschema]
    exact .describe name q'.schema
  | explain name => exact .single (h.report name fun q q' _ => .explain name q q')
  | doWhile => cases hst

/-- Passes of a loop, if the runs of the body are in lockstep. -/
theorem Session.lockstep_loop (hmodes : c.Modes c') {body body' : Session → Outcome}
    {bodyTrace bodyTrace' : List Nat → Session → List Step}
    (hbody : ∀ place s s', Twins c' s s' →
      Lockstep c' readable (bodyTrace place s) (bodyTrace' place s') (body s) (body' s'))
    {condition : Expr} (hlimit : condition.LimitFree)
    (hread : readable → condition.Readable c'.env) (place : List Nat) (passes finished : Nat)
    {s s' : Session} (h : Twins c' s s') :
    Lockstep c' readable (loopTrace c body bodyTrace condition place passes finished s)
      (loopTrace c' body' bodyTrace' condition place passes finished s')
      (loop c body condition passes finished s) (loop c' body' condition passes finished s') := by
  induction passes generalizing finished s s' with
  | zero => exact Or.inl ⟨⟨h, .nil, rfl⟩, rfl⟩
  | succ passes ih =>
    rw [loop_succ, loop_succ, loopTrace, loopTrace]
    refine (hbody _ s s' h).andThen fun s₁ s₁' h₁ => ?_
    have hsession : Twins c' (s₁.test c condition finished).2 (s₁'.test c' condition finished).2 :=
      h₁.tuplesOf_session c c' condition condition
    have hverdict := h₁.test hmodes hlimit finished
    cases ht : s₁.test c condition finished with
    | mk verdict s₂ =>
      cases ht' : s₁'.test c' condition finished with
      | mk verdict' s₂' =>
        rw [ht, ht'] at hsession hverdict
        rcases hverdict with halike | ⟨hx, e, he⟩
        · -- both conditions are tested with the same verdict
          rcases halike.cases with ⟨e, hv, hv'⟩ | ⟨again, _, hv, hv', rfl⟩
          · cases hv
            cases hv'
            exact .single ⟨hsession, .nil, rfl⟩
          · cases hv
            cases hv'
            cases again with
            | false => exact .single ⟨hsession, .nil, rfl⟩
            | true =>
              rcases ih (finished + 1) hsession with ⟨hagree, hplaces⟩ | hfailed
              · exact Or.inl ⟨hagree, congrArg ((place ++ [finished + 1]) :: ·) hplaces⟩
              · exact Or.inr hfailed
        · cases he
          exact Or.inr ⟨fun hall => hx (hread hall), e, rfl⟩

/-- **Statements run in lockstep from twin sessions.** -/
theorem Statement.lockstep (hmodes : c.Modes c') (passes : Nat) :
    (∀ st : Statement, (∀ x ∈ st.exprs, x.LimitFree) →
      (readable → ∀ x ∈ st.exprs, x.Readable c'.env) →
      ∀ place s s', Session.Twins c' s s' →
        Lockstep c' readable (st.trace c passes place s) (st.trace c' passes place s')
          (st.run c passes s) (st.run c' passes s')) ∧
    ∀ program : List Statement, (∀ x ∈ exprsAll program, x.LimitFree) →
      (readable → ∀ x ∈ exprsAll program, x.Readable c'.env) →
      ∀ place index s s', Session.Twins c' s s' →
        Lockstep c' readable (traceAll c passes place index program s)
          (traceAll c' passes place index program s') (runAll c passes program s)
          (runAll c' passes program s') := by
  apply Statement.induction
  case simple =>
    intro st hst hlimit hread place s s' h
    exact lockstep_simple hmodes hst hlimit hread passes place h
  case doWhile =>
    intro body condition ih hlimit hread place s s' h
    rw [exprs] at hlimit hread
    rw [run_doWhile, run_doWhile]
    obtain ⟨hbodyLimit, hlimit⟩ := List.forall_mem_append.1 hlimit
    have hbodyRead : readable → ∀ x ∈ exprsAll body, x.Readable c'.env :=
      fun hall => (List.forall_mem_append.1 (hread hall)).1
    have hconditionRead : readable → condition.Readable c'.env :=
      fun hall => (List.forall_mem_append.1 (hread hall)).2 condition List.mem_cons_self
    exact Session.lockstep_loop hmodes (fun place => ih hbodyLimit hbodyRead place 0)
      (hlimit condition List.mem_cons_self) hconditionRead place passes 0 h
  case nil =>
    intro _ _ place index s s' h
    exact Or.inl ⟨⟨h, .nil, rfl⟩, rfl⟩
  case cons =>
    intro st rest hst hrest hlimit hread place index s s' h
    rw [exprsAll] at hlimit hread
    obtain ⟨hlimit, hrestLimit⟩ := List.forall_mem_append.1 hlimit
    have hstRead : readable → ∀ x ∈ st.exprs, x.Readable c'.env :=
      fun hall => (List.forall_mem_append.1 (hread hall)).1
    have hrestRead : readable → ∀ x ∈ exprsAll rest, x.Readable c'.env :=
      fun hall => (List.forall_mem_append.1 (hread hall)).2
    rw [traceAll, traceAll, runAll_cons, runAll_cons]
    exact (hst hlimit hstRead (place ++ [index]) s s' h).andThen
      (hrest hrestLimit hrestRead place (index + 1))

end Runs

/-- A lazy run and an eager run of a program, each over an empty store, cannot be told apart. -/
structure Program.Agree (c c' : Settings) (passes : Nat) (program : Program) : Prop where
  /-- They end the same way. -/
  ending : (program.run c passes .fresh).ending = (program.run c' passes .fresh).ending
  /-- They are at the same places of the program all the time. -/
  places : (program.trace c passes .fresh).map Step.place =
    (program.trace c' passes .fresh).map Step.place
  /-- A failure of one is the same failure of the other, at the same place. -/
  failure : ∀ e, (program.run c passes .fresh).ending = .failed e →
    ∃ step step', (program.trace c passes .fresh).getLast? = some step ∧
      (program.trace c' passes .fresh).getLast? = some step' ∧ step.place = step'.place ∧
      (step.after c).ending = .failed e ∧ (step'.after c').ending = .failed e
  /-- They bind the same names, to queries with the same schemas. -/
  names : ∀ name, ((program.run c passes .fresh).session.bindings.get? name).map Query.schema =
    ((program.run c' passes .fresh).session.bindings.get? name).map Query.schema
  /-- They put out the same, up to the order of tuples and to the plans that are explained. -/
  outputs : List.Forall₂ Output.Agree (program.run c passes .fresh).outputs
    (program.run c' passes .fresh).outputs

theorem Program.agree_of_lockstep {c c' : Settings} {readable : Prop} {passes : Nat}
    {program : Program}
    (h : Lockstep c' readable (program.trace c passes .fresh) (program.trace c' passes .fresh)
      (program.run c passes .fresh) (program.run c' passes .fresh))
    (hok : readable ∨ (program.run c' passes .fresh).ending = .completed) :
    program.Agree c c' passes := by
  rcases h with ⟨hagree, hplaces⟩ | ⟨hread, e, he⟩
  · refine ⟨hagree.ending, hplaces, fun e he => ?_, hagree.sessions.bindings.schema,
      hagree.outputs⟩
    have he' := hagree.ending.symm.trans he
    obtain ⟨step, hlast, hstep⟩ := (program.covers_trace c passes .fresh).failure e he
    obtain ⟨step', hlast', hstep'⟩ := (program.covers_trace c' passes .fresh).failure e he'
    have hplace := congrArg List.getLast? hplaces
    rw [List.getLast?_map, List.getLast?_map, hlast, hlast'] at hplace
    exact ⟨step, step', hlast, hlast', Option.some.inj hplace, hstep, hstep'⟩
  · rcases hok with hall | hcompleted
    · exact absurd hall hread
    · rw [he] at hcompleted
      cases hcompleted

/-- **Lazy and eager mode agree on programs without limits**: if every file that is loaded can be
read to its end, and also, whatever the files, if the eager run is completed. -/
theorem Program.modes_agree {c c' : Settings} (hmodes : c.Modes c') (passes : Nat)
    (program : Program) (hlimit : program.LimitFree) :
    (program.Readable c'.env → program.Agree c c' passes) ∧
      ((program.run c' passes .fresh).ending = .completed → program.Agree c c' passes) := by
  have hread : program.Readable c'.env → program.Readable c'.env := id
  have hlockstep := (Statement.lockstep hmodes passes).2 program hlimit hread [] 0 .fresh .fresh
    (.fresh c')
  exact ⟨fun hread => agree_of_lockstep hlockstep (Or.inl hread),
    fun hcompleted => agree_of_lockstep hlockstep (Or.inr hcompleted)⟩

/-! ### A loop over a file -/

/-- A single file `f` with the lines `2` and `1`. -/
def Environment.twoLines : Environment where
  files path := if path = "f" then .content ⟨#[50, 10, 49, 10]⟩ else .refused ""
  dataDir := none

/-- Loads the lines, and takes them away twice from two of each. -/
def Program.countdown : Program :=
  [.assign "n" (.load "f" [⟨"n", .int⟩]),
    .assign "rest" (.setOp .union "n" "n"),
    .doWhile [.assign "rest" (.setOp .diff "rest" "n")] (.reference "rest"),
    .dump (.reference "n")]

theorem Program.limitFree_countdown : countdown.LimitFree := by
  intro x hx
  simp only [countdown, Statement.exprsAll, Statement.exprs, List.cons_append, List.nil_append,
    List.mem_cons, List.not_mem_nil, or_false] at hx
  rcases hx with rfl | rfl | rfl | rfl | rfl <;> trivial

theorem Program.readable_countdown : countdown.Readable .twoLines := by
  intro x hx
  simp only [countdown, Statement.exprsAll, Statement.exprs, List.cons_append, List.nil_append,
    List.mem_cons, List.not_mem_nil, or_false] at hx
  rcases hx with rfl | rfl | rfl | rfl | rfl
  · intro schema hschema
    have hnumbers : schema = Query.numbers := Schema.ext (Schema.ofColumns_eq_ok_iff.1 hschema)
    subst hnumbers
    refine ⟨[⟨[.int 2]⟩, ⟨[.int 1]⟩], ?_⟩
    decide +kernel
  all_goals trivial

theorem Program.modes_agree_countdown :
    let lazy : Settings := ⟨.lazy, "owner", "run", some 3, .twoLines⟩
    let eager : Settings := ⟨.eager, "owner", "run", some 3, .twoLines⟩
    lazy.Modes eager ∧ countdown.LimitFree ∧ countdown.Readable eager.env ∧
      (countdown.run eager 3 .fresh).ending = .completed ∧
      countdown.Agree lazy eager 3 ∧
      (countdown.trace lazy 3 .fresh).map Step.place =
        [[0], [1], [2, 1, 0], [2, 1], [2, 2, 0], [2, 2], [3]] ∧
      (countdown.run lazy 3 .fresh).outputs =
        [.dump Query.numbers [⟨[.int 2]⟩, ⟨[.int 1]⟩]] ∧
      (countdown.run eager 3 .fresh).outputs =
        [.dump Query.numbers [⟨[.int 1]⟩, ⟨[.int 2]⟩]] := by
  intro lazy eager
  have hmodes : lazy.Modes eager := ⟨rfl, rfl, rfl, rfl⟩
  have hcompleted : (countdown.run eager 3 .fresh).ending = .completed := by decide +kernel
  have hagree := modes_agree hmodes 3 countdown limitFree_countdown
  refine ⟨hmodes, limitFree_countdown, readable_countdown, hcompleted,
    hagree.1 readable_countdown, ?_, ?_, ?_⟩
  · decide +kernel
  · decide +kernel
  · decide +kernel

end BagQuery
