import BagQuery.Proofs.EagerStore
import BagQuery.Proofs.QueryFaults
import BagQuery.Proofs.RefusedOutputs

/-!
# What a run fails over

Once an expression is analyzed, only a file can fail.  A session in which programs were run, however
they ended, is sound (`Session.Sound`): in lazy mode nothing is stored and names are bound to
queries over files and rows; in eager mode a name is bound to a scan of a stored relation, which has
the schema of the scan.  Every action keeps that (`Session.Sound.step`), so a scan never meets a
relation that is gone or has other columns, and a query has well-typed tuples to work on.

What is left are the failures of analysis, the faults of the files that are loaded, the iteration
limit, and outputs that the sink of the run refuses (`Program.only_files_fail`).
-/

namespace BagQuery

open Attempt

/-! ## Actions that fail -/

/-- The expression that an action analyzes.  A report of a name looks the name up. -/
def Action.expr? : Action → Option Expr
  | statement (.assign _ x) | statement (.dump x) | test x _ => some x
  | statement (.describe name) | statement (.explain name) => some (.reference name)
  | statement (.doWhile ..) => none

/-- What an action fails over. -/
inductive Step.FailsOver (c : Settings) (step : Step) (e : Error) : Prop
  /-- The expression cannot be analyzed. -/
  | analysis {x : Expr} (hx : step.action.expr? = some x)
      (h : x.analyze step.before.bindings = .error e)
  /-- The query of the expression cannot be drained. -/
  | query {x : Expr} {q : Query} (hx : step.action.expr? = some x)
      (hq : x.analyze step.before.bindings = .ok q)
      (h : (q.drain c.env step.before.database.store).outcome = .error e)
  /-- The condition of a loop was tested too often. -/
  | limit {condition : Expr} {finished limit : Nat} (hstep : step.action = .test condition finished)
      (hlimit : c.maxIterations = some limit) (he : e = .iterationLimit limit)

namespace Session

variable {c : Settings} {s : Session} {e : Error}

/-- An assignment in eager mode: storing and scanning add no failures to those of the query. -/
theorem assign_eager (h : c.mode = .eager) (name : String) (x : Expr) (s : Session) :
    s.assign c name x = match x.analyze s.bindings with
      | .error e => .failed e s
      | .ok q =>
        let access := q.drain c.env s.database.store
        match access.outcome with
        | .error e => .failed e (s.reading access.scans).counting
        | .ok ts => .completed ((s.reading access.scans).assigned c name q.schema (.ofList ts)) := by
  unfold assign
  cases x.analyze s.bindings with
  | error e => rfl
  | ok q =>
    dsimp only
    rw [h, materialize_eq]
    dsimp only
    cases (q.drain c.env s.database.store).outcome <;> rfl

theorem failed_of_dump {x : Expr} (h : (s.dump .list c x).ending = .failed e) :
    (s.tuplesOf c x).1 = .error e := by
  unfold dump at h
  cases ht : s.tuplesOf c x with
  | mk outcome s' =>
    rw [ht] at h
    cases outcome with
    | error e' => cases h; rfl
    | ok p => cases h

theorem failed_of_report {name : String} {output : Query → Output}
    (h : (s.report .list name output).ending = .failed e) : s.bindings.resolve name = .error e := by
  unfold report at h
  cases hname : s.bindings.resolve name with
  | error e' => rw [hname] at h; cases h; rfl
  | ok q => rw [hname] at h; cases h

theorem failed_of_testOutcome {condition : Expr} {finished : Nat}
    (h : (s.testOutcome c condition finished).ending = .failed e) :
    (s.test c condition finished).1 = .error e := by
  unfold testOutcome at h
  cases ht : s.test c condition finished with
  | mk verdict s' =>
    rw [ht] at h
    cases verdict with
    | error e' => cases h; rfl
    | ok again => cases h

end Session

/-- **An action fails over the analysis of its expression, over its query, or over the limit of a
loop.** -/
theorem Step.failsOver {c : Settings} {step : Step} {e : Error}
    (h : (step.after c).ending = .failed e) : step.FailsOver c e := by
  obtain ⟨place, action, s⟩ := step
  cases action with
  | test condition finished =>
    rcases bind_eq_error_iff.1 (Session.failed_of_testOutcome h) with h | ⟨p, -, h⟩
    · rcases Session.tuplesOf_eq_error h with h | ⟨q, hq, h⟩
      · exact .analysis rfl h
      · exact .query rfl hq h
    · obtain ⟨-, limit, hlimit, -, he⟩ := Session.verdict_eq_error_iff.1 h
      exact .limit rfl hlimit he
  | statement st =>
    cases st with
    | dump x =>
      rcases Session.tuplesOf_eq_error (Session.failed_of_dump h) with h | ⟨q, hq, h⟩
      · exact .analysis rfl h
      · exact .query rfl hq h
    | describe name | explain name => exact .analysis rfl (Session.failed_of_report h)
    | doWhile body condition => cases h
    | assign name x =>
      replace h : (s.assign c name x).ending = .failed e := h
      cases hmode : c.mode with
      | lazy =>
        unfold Session.assign at h
        rw [hmode] at h
        cases hx : x.analyze s.bindings with
        | error e' => rw [hx] at h; cases h; exact .analysis rfl hx
        | ok q => rw [hx] at h; cases h
      | eager =>
        rw [Session.assign_eager hmode] at h
        cases hx : x.analyze s.bindings with
        | error e' => rw [hx] at h; cases h; exact .analysis rfl hx
        | ok q =>
          rw [hx] at h
          dsimp only at h
          cases hdrain : (q.drain c.env s.database.store).outcome with
          | error e' => rw [hdrain] at h; cases h; exact .query rfl hx hdrain
          | ok ts => rw [hdrain] at h; cases h

/-- An action that is no assignment reads at most. -/
theorem Step.reads_of_no_assignment (c : Settings) (step : Step)
    (h : ∀ name x, step.action ≠ .statement (.assign name x)) :
    ∃ n, (step.after c).session = step.before.reading n := by
  obtain ⟨place, action, s⟩ := step
  cases action with
  | test condition finished =>
    obtain ⟨n, hn⟩ := Session.test_reads c condition finished s
    exact ⟨n, (Session.session_testOutcome ..).trans hn⟩
  | statement st =>
    cases st with
    | assign name x => exact absurd rfl (h name x)
    | dump x => exact Session.dump_reads .list c x s
    | describe name | explain name => exact ⟨0, Session.report_session ..⟩
    | doWhile body condition => exact ⟨0, rfl⟩

/-! ## Sound sessions -/

/-- A leaf of a query in lazy mode: nothing is stored, and the files are among some paths. -/
def Query.Unstored (loads : String → Prop) : Query → Prop
  | load path _ => loads path
  | scan .. => False
  | _ => True

/-- What programs that load from some paths leave, however they end. -/
inductive Session.Sound (c : Settings) (loads : String → Prop) (s : Session) : Prop
  /-- In lazy mode names are bound to queries over files and rows. -/
  | lazy (hmode : c.mode = .lazy) (hempty : s.database.store = .empty)
      (hbuilt : ∀ name q, s.bindings.get? name = some q → q.Built)
      (hleaves : ∀ name q, s.bindings.get? name = some q → ∀ leaf ∈ q.leaves, leaf.Unstored loads)
  /-- In eager mode names are bound to scans of well-typed relations. -/
  | eager (hmode : c.mode = .eager) (hstored : s.OneRelationPerName c)
      (hstore : s.database.store.WellTyped)

namespace Session

variable {c : Settings} {loads : String → Prop} {s : Session}

theorem OneRelationPerName.built (h : s.OneRelationPerName c) {name : String} {q : Query}
    (hq : s.bindings.get? name = some q) : q.Built := by
  obtain ⟨n, schema, -, rfl⟩ := h.bound name q hq
  obtain ⟨r, hr, rfl⟩ := h.schemas name _ schema hq
  exact .scan (Query.makeScan_eq_ok_iff.2 ⟨r, hr, rfl⟩)

namespace Sound

theorem fresh (c : Settings) (loads : String → Prop) : Session.fresh.Sound c loads := by
  cases hmode : c.mode with
  | lazy => exact .lazy hmode rfl nofun nofun
  | eager => exact .eager hmode (.fresh c) .empty

theorem store (h : s.Sound c loads) : s.database.store.WellTyped := by
  cases h with
  | lazy _ hempty => rw [hempty]; exact .empty
  | eager _ _ hstore => exact hstore

theorem built (h : s.Sound c loads) {name : String} {q : Query}
    (hq : s.bindings.get? name = some q) : q.Built := by
  cases h with
  | lazy _ _ hbuilt => exact hbuilt name q hq
  | eager _ hstored => exact hstored.built hq

/-- The stored relations that a bound query reads are there, and the files among the paths. -/
theorem leaves (h : s.Sound c loads) {name : String} {q : Query}
    (hq : s.bindings.get? name = some q) :
    ∀ leaf ∈ q.leaves, leaf.ServedBy s.database.store ∧
      ∀ path schema, leaf = .load path schema → loads path := by
  cases h with
  | lazy _ _ _ hleaves =>
    intro leaf hleaf
    have hunstored := hleaves name q hq leaf hleaf
    cases leaf with
    | scan key schema => exact absurd hunstored id
    | load path schema =>
      refine ⟨trivial, ?_⟩
      rintro _ _ ⟨⟩
      exact hunstored
    | table | join | foreach | setOp | distinct | limit => exact ⟨trivial, nofun⟩
  | eager _ hstored =>
    obtain ⟨n, schema, -, rfl⟩ := hstored.bound name q hq
    obtain ⟨r, hr, hschema⟩ := hstored.schemas name _ schema hq
    intro leaf hleaf
    obtain rfl := List.mem_singleton.1 hleaf
    exact ⟨⟨r, hr, congrArg Schema.types hschema.symm⟩, nofun⟩

/-- **An analyzed expression is well typed, and finds the stored relations that it needs.** -/
theorem analyze (h : s.Sound c loads) {x : Expr} (hx : ∀ path ∈ x.paths, loads path) {q : Query}
    (hq : x.analyze s.bindings = .ok q) :
    q.WellTyped ∧ ∀ leaf ∈ q.leaves, leaf.ServedBy s.database.store ∧
      ∀ path schema, leaf = .load path schema → loads path := by
  refine ⟨(Expr.built_of_analyze (fun _ _ => h.built) hq).wellTyped, ?_⟩
  refine Expr.leaves_of_analyze (fun _ _ => h.leaves) ?_ ?_ hq
  · intro rows schema
    exact ⟨trivial, nofun⟩
  · intro path hpath schema
    refine ⟨trivial, ?_⟩
    rintro _ _ ⟨⟩
    exact hx path hpath

/-! ### Actions -/

theorem reading (h : s.Sound c loads) (n : Nat) : (s.reading n).Sound c loads := by
  cases h with
  | lazy hmode hempty hbuilt hleaves => exact .lazy hmode hempty hbuilt hleaves
  | eager hmode hstored hstore => exact .eager hmode (hstored.reading n) hstore

theorem assign_lazy (hmode : c.mode = .lazy) (h : s.Sound c loads) (name : String) {x : Expr}
    (hx : ∀ path ∈ x.paths, loads path) : (s.assign c name x).session.Sound c loads := by
  cases h with
  | eager hmode' => rw [hmode] at hmode'; cases hmode'
  | lazy _ hempty hbuilt hleaves =>
    unfold Session.assign
    cases hq : x.analyze s.bindings with
    | error e => exact .lazy hmode hempty hbuilt hleaves
    | ok q =>
      rw [hmode]
      have hbindings : (s.bind c name q).bindings = s.bindings.insert name q := bindings_bind ..
      -- no scan is displaced, so the store stays empty
      have hscan : ∀ key schema, s.bindings.get? name ≠ some (.scan key schema) :=
        fun key schema hscan => hleaves name _ hscan _ (List.mem_singleton_self _)
      have hdatabase : (s.bind c name q).database = s.database := database_bind_of_no_scan hscan q
      have hnew : q.Built ∧ ∀ leaf ∈ q.leaves, leaf.Unstored loads :=
        ⟨Expr.built_of_analyze hbuilt hq,
          Expr.leaves_of_analyze hleaves (fun _ _ => trivial) (fun path hpath _ => hx path hpath) hq⟩
      have hbound : ∀ other r, (s.bind c name q).bindings.get? other = some r →
          r.Built ∧ ∀ leaf ∈ r.leaves, leaf.Unstored loads := by
        intro other r hr
        rw [hbindings] at hr
        by_cases hother : other = name
        · subst hother
          rw [Dictionary.get?_insert_self] at hr
          cases hr
          exact hnew
        · rw [Dictionary.get?_insert_of_ne hother] at hr
          exact ⟨hbuilt other r hr, hleaves other r hr⟩
      refine .lazy hmode ?_ (fun other r hr => (hbound other r hr).1)
        fun other r hr => (hbound other r hr).2
      show (s.bind c name q).database.store = .empty
      rw [hdatabase, hempty]

theorem wellTyped_assigned {name : String} {schema : Schema} {ts : List Tuple}
    (h : s.database.store.WellTyped) (hts : ∀ t ∈ ts, schema.Admits t) :
    (s.assigned c name schema (.ofList ts)).database.store.WellTyped := by
  have hreplaced := h.replace (s.nextKey c name) hts
  unfold Session.assigned Session.bind release
  dsimp only
  split
  · split
    · exact Store.WellTyped.erase hreplaced _
    · exact hreplaced
  · exact hreplaced

theorem assign_eager (hmode : c.mode = .eager) (h : s.Sound c loads) (name : String) {x : Expr}
    (hx : ∀ path ∈ x.paths, loads path) : (s.assign c name x).session.Sound c loads := by
  cases hq : x.analyze s.bindings with
  | error e => rw [Session.assign_eager hmode, hq]; exact h
  | ok q =>
    obtain ⟨hwellTyped, -⟩ := h.analyze hx hq
    have hgives := Query.gives_drain c.env h.store hwellTyped
    rw [Session.assign_eager hmode, hq]
    dsimp only
    cases h with
    | lazy hmode' => rw [hmode] at hmode'; cases hmode'
    | eager _ hstored hstore =>
      cases hdrain : (q.drain c.env s.database.store).outcome with
      | error e => exact .eager hmode (hstored.reading _).counting hstore
      | ok ts =>
        rw [Access.Gives, hdrain] at hgives
        refine .eager hmode ((hstored.reading _).assigned name _ _) ?_
        exact wellTyped_assigned hstore hgives

/-- **Every action leaves a sound session.** -/
theorem step {step : Step} (h : step.before.Sound c loads)
    (hx : ∀ x, step.action.expr? = some x → ∀ path ∈ x.paths, loads path) :
    (step.after c).session.Sound c loads := by
  obtain ⟨place, action, s⟩ := step
  by_cases hassign : ∃ name x, action = .statement (.assign name x)
  · obtain ⟨name, x, rfl⟩ := hassign
    cases hmode : c.mode with
    | lazy => exact h.assign_lazy hmode name (hx x rfl)
    | eager => exact h.assign_eager hmode name (hx x rfl)
  · obtain ⟨n, hn⟩ := Step.reads_of_no_assignment c ⟨place, action, s⟩
      fun name x haction => hassign ⟨name, x, haction⟩
    rw [hn]
    exact h.reading n

end Sound

end Session

/-! ## Runs -/

/-- The expressions that a run analyzes load from paths of the program. -/
theorem Statement.paths_of_mem_trace (c : Settings) (passes : Nat) :
    (∀ (st : Statement) (place : List Nat) (s : Session), ∀ step ∈ st.trace c passes place s,
      ∀ x, step.action.expr? = some x → x.paths ⊆ st.paths) ∧
    ∀ (program : List Statement) (place : List Nat) (index : Nat) (s : Session),
      ∀ step ∈ traceAll c passes place index program s,
        ∀ x, step.action.expr? = some x → x.paths ⊆ pathsAll program := by
  apply Statement.induction
  case simple =>
    intro st hst place s step hstep x hx
    rw [trace_simple hst] at hstep
    obtain rfl := List.mem_singleton.1 hstep
    cases st with
    | assign | dump => cases hx; exact List.Subset.refl _
    | describe | explain => cases hx; exact List.nil_subset _
    | doWhile => cases hst
  case nil =>
    intro place index s step hstep
    cases hstep
  case cons =>
    intro st rest hst hrest place index s step hstep x hx
    rw [pathsAll]
    rcases List.mem_append.1 hstep with hstep | hstep
    · exact List.subset_append_of_subset_left _ (hst _ _ step hstep x hx)
    · have hrest := hrest _ _ _ step (Outcome.mem_of_mem_stepsThen hstep) x hx
      exact List.subset_append_of_subset_right _ hrest
  case doWhile =>
    intro body condition ih place s
    rw [paths]
    refine Session.forall_mem_loopTrace (fun pass s step hstep x hx => ?_) ?_ passes 0 s
    · exact List.subset_append_of_subset_left _ (ih _ 0 s step hstep x hx)
    · rintro finished s x ⟨⟩
      exact List.subset_append_right _ _

/-- A session after programs that load from some paths were run, one behind the other, each into a
sink of its own, and whether or not they failed. -/
inductive Session.Reached (c : Settings) (loads : String → Prop) : Session → Prop
  | fresh : Reached c loads .fresh
  | run {s : Session} (h : Reached c loads s) (passes : Nat) (sink : Sink) {program : Program}
      (hloads : ∀ path ∈ Statement.pathsAll program, loads path) :
      Reached c loads (program.runInto c passes sink s).session

section Runs

variable {c : Settings} {loads : String → Prop} {s : Session}

/-- **A run keeps its session sound**, in front of every action and behind it. -/
theorem Program.sound_trace (h : s.Sound c loads) (passes : Nat) {program : Program}
    (hloads : ∀ path ∈ Statement.pathsAll program, loads path) :
    (∀ step ∈ program.trace c passes s, step.before.Sound c loads ∧
        ∀ x, step.action.expr? = some x → ∀ path ∈ x.paths, loads path) ∧
      ∀ sink, (program.runInto c passes sink s).session.Sound c loads := by
  have hpaths : ∀ step ∈ program.trace c passes s,
      ∀ x, step.action.expr? = some x → ∀ path ∈ x.paths, loads path :=
    fun step hstep x hx path hpath =>
      hloads path ((Statement.paths_of_mem_trace c passes).2 program [] 0 s step hstep x hx hpath)
  have hcovers := program.covers_trace c passes s
  obtain ⟨hsteps, -⟩ := hcovers.chain.invariant_of_mem
    (fun step hstep hbefore => hbefore.step (hpaths step hstep)) h
  refine ⟨fun step hstep => ⟨(hsteps step hstep).1, hpaths step hstep⟩, fun sink => ?_⟩
  obtain ⟨done, hinitial, hchain⟩ := (program.received c passes sink s).prefix_of_steps hcovers
  exact (hchain.invariant_of_mem
    (fun step hstep hbefore => hbefore.step (hpaths step (hinitial.subset hstep))) h).2

theorem Session.Reached.sound (h : s.Reached c loads) : s.Sound c loads := by
  induction h with
  | fresh => exact .fresh c loads
  | run _ passes sink hloads ih => exact (Program.sound_trace ih passes hloads).2 sink

/-- **An action in a sound session fails over its analysis, over a file, or over the limit of a
loop.** -/
theorem Session.Sound.failure {step : Step} (h : step.before.Sound c loads)
    (hpaths : ∀ x, step.action.expr? = some x → ∀ path ∈ x.paths, loads path) {e : Error}
    (he : (step.after c).ending = .failed e) :
    (∃ x, step.action.expr? = some x ∧ x.analyze step.before.bindings = .error e ∧ e.OfAnalysis) ∨
      (∃ x q path schema, step.action.expr? = some x ∧ x.analyze step.before.bindings = .ok q ∧
        .load path schema ∈ q.leaves ∧ loads path ∧ c.env.Fault path schema e) ∨
      ∃ condition finished limit, step.action = .test condition finished ∧
        c.maxIterations = some limit ∧ e = .iterationLimit limit := by
  cases Step.failsOver he with
  | analysis hx hfail =>
    exact Or.inl ⟨_, hx, hfail, Expr.ofAnalysis_analyze _ _ e hfail⟩
  | query hx hq hfail =>
    obtain ⟨hwellTyped, hleaves⟩ := h.analyze (hpaths _ hx) hq
    obtain ⟨path, schema, hleaf, hfault⟩ :=
      Query.fault_of_served h.store hwellTyped (fun leaf hleaf => (hleaves leaf hleaf).1) hfail
    have hloads : loads path := (hleaves _ hleaf).2 path schema rfl
    exact Or.inr (Or.inl ⟨_, _, path, schema, hx, hq, hleaf, hloads, hfault⟩)
  | limit hstep hlimit hiteration =>
    exact Or.inr (Or.inr ⟨_, _, _, hstep, hlimit, hiteration⟩)

end Runs

theorem Error.OfAnalysis.not_of_plan {e : Error} (h : e.OfAnalysis) :
    e.kind ≠ .plan ∧ ∀ key, e ≠ .unknownRelation key := by
  cases e <;> first | exact h.elim | exact ⟨nofun, nofun⟩

theorem Environment.Fault.not_of_plan {env : Environment} {path : String} {schema : Schema}
    {e : Error} (h : env.Fault path schema e) :
    e.kind ≠ .plan ∧ ∀ key, e ≠ .unknownRelation key := by
  cases h <;> exact ⟨nofun, nofun⟩

theorem Sink.Refuses.not_of_plan {sink : Sink} {e : Error} (h : sink.Refuses e) :
    e.kind ≠ .plan ∧ ∀ key, e ≠ .unknownRelation key := by
  obtain ⟨taken, o, reason, -, rfl⟩ := h
  exact ⟨nofun, nofun⟩

/-- What a run from a sound session fails over. -/
theorem Program.failure_of_sound {c : Settings} {loads : String → Prop} {s : Session}
    (h : s.Sound c loads) (passes : Nat) {program : Program}
    (hloads : ∀ path ∈ Statement.pathsAll program, loads path) (sink : Sink) {e : Error}
    (he : (program.runInto c passes sink s).ending = .failed e) :
    e.OfAnalysis ∨ (∃ path schema, loads path ∧ c.env.Fault path schema e) ∨
      (∃ limit, c.maxIterations = some limit ∧ e = .iterationLimit limit) ∨ sink.Refuses e := by
  rcases (program.received c passes sink s).failure he with he | hrefuses
  · obtain ⟨step, hlast, hstep⟩ := (program.covers_trace c passes s).failure e he
    obtain ⟨hsound, hpaths⟩ := (sound_trace h passes hloads).1 step (List.mem_of_getLast? hlast)
    rcases hsound.failure hpaths hstep with ⟨x, -, -, hanalysis⟩ |
      ⟨x, q, path, schema, -, -, -, hpath, hfault⟩ | ⟨condition, finished, limit, -, hlimit⟩
    · exact Or.inl hanalysis
    · exact Or.inr (Or.inl ⟨path, schema, hpath, hfault⟩)
    · exact Or.inr (Or.inr (Or.inl ⟨limit, hlimit⟩))
  · exact Or.inr (Or.inr (Or.inr hrefuses))

/-- **Once an expression is analyzed, only a file can fail.**  Programs that load from some paths
are run from a fresh session, one behind the other and in either mode, each into a sink of its own,
and whether or not they fail.  Then at every action of the next run, if its expression can be
analyzed, each scan of the query finds a stored relation with columns of the same types; and if the
action fails nevertheless, a file that the query loads is at fault, or a loop is at the iteration
limit.  These are the actions of a run into any sink, which only may stop earlier.

So a run fails over the analysis of an expression, over a file, over the iteration limit, or over an
output that its sink refuses, and never over a plan or a relation that is not stored.  Into a sink
that takes all outputs, and without files to load, a program text fails over its syntax, over the
analysis of an expression, or over the iteration limit. -/
theorem Program.only_files_fail {c : Settings} {loads : String → Prop} {s : Session}
    (h : s.Reached c loads) (passes : Nat) :
    (∀ program : Program, (∀ path ∈ Statement.pathsAll program, loads path) →
      (∀ step ∈ program.trace c passes s, ∀ x q, step.action.expr? = some x →
        x.analyze step.before.bindings = .ok q →
          (∀ key schema, .scan key schema ∈ q.leaves →
            ∃ r, step.before.database.store.get? key = some r ∧ schema.Compatible r.schema) ∧
          (∀ e, (q.drain c.env step.before.database.store).outcome = .error e →
            ∃ path schema, .load path schema ∈ q.leaves ∧ loads path ∧ c.env.Fault path schema e) ∧
          ∀ e, (step.after c).ending = .failed e →
            (q.drain c.env step.before.database.store).outcome = .error e ∨
              ∃ condition finished limit, step.action = .test condition finished ∧
                c.maxIterations = some limit ∧ e = .iterationLimit limit) ∧
      ∀ sink : Sink,
        (∃ steps, steps <+: program.trace c passes s ∧
          Chain c s steps (program.runInto c passes sink s).session) ∧
        ∀ e, (program.runInto c passes sink s).ending = .failed e →
          (e.OfAnalysis ∨ (∃ path schema, loads path ∧ c.env.Fault path schema e) ∨
            (∃ limit, c.maxIterations = some limit ∧ e = .iterationLimit limit) ∨
              sink.Refuses e) ∧
          e.kind ≠ .plan ∧ ∀ key, e ≠ .unknownRelation key) ∧
    ((∀ path, ¬loads path) → ∀ sink : Sink, (∀ taken o, sink.refusal? taken o = none) →
      ∀ text e, (runTextInto c passes text sink s).ending = .failed e →
        (∀ program, Program.parse text = .ok program → Statement.pathsAll program = []) →
          (∃ refusal, Program.parse text = .error refusal ∧ e = refusal.toError) ∨ e.OfAnalysis ∨
            ∃ limit, c.maxIterations = some limit ∧ e = .iterationLimit limit) := by
  refine ⟨fun program hloads => ⟨fun step hstep x q hx hq => ?_, fun sink => ⟨?_, fun e he => ?_⟩⟩,
    fun hnone sink htakes text e he hpaths => ?_⟩
  · obtain ⟨hsound, hpaths⟩ := (sound_trace h.sound passes hloads).1 step hstep
    obtain ⟨hwellTyped, hleaves⟩ := hsound.analyze (hpaths x hx) hq
    refine ⟨fun key schema hleaf => (hleaves _ hleaf).1, fun e hfail => ?_, fun e he => ?_⟩
    · obtain ⟨path, schema, hleaf, hfault⟩ := Query.fault_of_served hsound.store hwellTyped
        (fun leaf hleaf => (hleaves leaf hleaf).1) hfail
      exact ⟨path, schema, hleaf, (hleaves _ hleaf).2 path schema rfl, hfault⟩
    · cases Step.failsOver he with
      | analysis hx' hfail =>
        rw [hx] at hx'
        cases hx'
        rw [hq] at hfail
        cases hfail
      | query hx' hq' hfail =>
        rw [hx] at hx'
        cases hx'
        rw [hq] at hq'
        cases hq'
        exact Or.inl hfail
      | limit hstep hlimit he => exact Or.inr ⟨_, _, _, hstep, hlimit, he⟩
  · exact (program.received c passes sink s).prefix_of_steps (program.covers_trace c passes s)
  · have hover := failure_of_sound h.sound passes hloads sink he
    refine ⟨hover, ?_⟩
    rcases hover with hanalysis | ⟨path, schema, -, hfault⟩ | ⟨limit, -, rfl⟩ | hrefuses
    · exact hanalysis.not_of_plan
    · exact hfault.not_of_plan
    · exact ⟨nofun, nofun⟩
    · exact hrefuses.not_of_plan
  · unfold runTextInto at he
    cases hparse : Program.parse text with
    | error refusal =>
      rw [hparse] at he
      cases he
      exact Or.inl ⟨refusal, rfl, rfl⟩
    | ok program =>
      rw [hparse] at he
      have hloads : ∀ path ∈ Statement.pathsAll program, loads path := by
        rw [hpaths program hparse]
        exact nofun
      rcases failure_of_sound h.sound passes hloads sink he with
        hanalysis | ⟨path, -, hpath, -⟩ | hlimit | ⟨taken, o, reason, hrefused, -⟩
      · exact Or.inr (Or.inl hanalysis)
      · exact absurd hpath (hnone path)
      · exact Or.inr (Or.inr hlimit)
      · rw [htakes] at hrefused
        cases hrefused

/-! ### A file with a bad line -/

/-- Loads the numbers of a file. -/
def Program.loadNumbers : Program := [.assign "n" (.load "f" [⟨"n", .int⟩])]

/-- Puts out no tuples, twice. -/
def Program.dumpTwice : Program :=
  List.replicate 2 (.dump (.table [] [⟨"n", .int⟩]))

/-- Takes one output and no other. -/
def Sink.one : Sink := ⟨fun taken _ => if taken = [] then none else some "full"⟩

/-- The file has a line that is no number, and is loaded after another program failed; another
program puts out more than its sink takes. -/
theorem Program.only_files_fail_spoiltFile :
    let c : Settings := ⟨.eager, "owner", "run", none, Query.spoiltFile⟩
    let failed : Program := [.dump (.reference "x")]
    let s := (failed.run c 1 .fresh).session
    let e : Error := .tupleType "f:3: 'x' is not a valid int for column 'n'"
    s.Reached c (· = "f") ∧ (∀ path ∈ Statement.pathsAll loadNumbers, path = "f") ∧
      (loadNumbers.run c 1 s).ending = .failed e ∧ c.env.Fault "f" Query.numbers e ∧
      (∀ path ∈ Statement.pathsAll dumpTwice, path = "f") ∧
      (dumpTwice.runInto c 1 .one s).ending = .failed (.output "full") ∧
      Sink.one.Refuses (.output "full") ∧
      (∀ taken o, Sink.list.refusal? taken o = none) ∧
      (∃ program, Program.parse "DUMP x;" = .ok program ∧ Statement.pathsAll program = []) ∧
      (runTextInto c 1 "DUMP x;" .list .fresh).ending = .failed (.unknownSymbol "x") ∧
      (Error.unknownSymbol "x").OfAnalysis := by
  intro c failed s e
  have hreached : s.Reached c (· = "f") :=
    .run .fresh 1 .list fun _ h => nomatch (h : _ ∈ Statement.pathsAll failed)
  have hloads : ∀ path ∈ Statement.pathsAll loadNumbers, path = "f" :=
    fun path hpath => List.mem_singleton.1 hpath
  have hfailed : (loadNumbers.run c 1 s).ending = .failed e := by decide +kernel
  have hfull : (dumpTwice.runInto c 1 .one s).ending = .failed (.output "full") := by
    decide +kernel
  have hparse : Program.parse "DUMP x;" = .ok failed := by with_unfolding_all rfl
  have hx : (runTextInto c 1 "DUMP x;" .list .fresh).ending = .failed (.unknownSymbol "x") := by
    rw [runTextInto, hparse]
    decide +kernel
  refine ⟨hreached, hloads, hfailed, ?_, nofun, hfull, ?_, fun _ _ => rfl,
    ⟨failed, hparse, rfl⟩, hx, ?_⟩
  · -- the one action of the run is analyzed, so the failure is that of the file
    obtain ⟨hsteps, -⟩ := (only_files_fail hreached 1).1 loadNumbers hloads
    have hq : (Expr.load "f" [⟨"n", .int⟩]).analyze s.bindings =
        .ok (.load "f" Query.numbers) := by decide +kernel
    obtain ⟨-, hfile, -⟩ := hsteps ⟨[0], .statement (.assign "n" (.load "f" [⟨"n", .int⟩])), s⟩
      List.mem_cons_self _ _ rfl hq
    have hdrain : ((Query.load "f" Query.numbers).drain c.env s.database.store).outcome =
        .error e := by decide +kernel
    obtain ⟨path, schema, hleaf, -, hfault⟩ := hfile e hdrain
    cases List.mem_singleton.1 hleaf
    exact hfault
  · obtain ⟨-, hsinks⟩ := (only_files_fail hreached 1).1 dumpTwice nofun
    rcases ((hsinks .one).2 _ hfull).1 with
      hanalysis | ⟨_, _, -, hfault⟩ | ⟨_, hlimit, -⟩ | hrefuses
    · exact hanalysis.elim
    · cases hfault
    · cases hlimit
    · exact hrefuses
  · have htexts := (only_files_fail (.fresh : Session.Reached c (fun _ => False) .fresh) 1).2
    have hpaths : ∀ program, Program.parse "DUMP x;" = .ok program →
        Statement.pathsAll program = [] := by
      intro program hprogram
      rw [hparse] at hprogram
      cases hprogram
      rfl
    rcases htexts nofun .list (fun _ _ => rfl) "DUMP x;" _ hx hpaths with
      ⟨refusal, hrefusal, -⟩ | hanalysis | ⟨_, hlimit, -⟩
    · rw [hparse] at hrefusal
      cases hrefusal
    · exact hanalysis
    · cases hlimit

end BagQuery
