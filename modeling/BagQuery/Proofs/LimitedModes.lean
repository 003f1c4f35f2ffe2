import BagQuery.Proofs.Modes
import BagQuery.Proofs.RunFaults

/-!
# Limits in lazy and eager mode

A limit takes the first tuples of its input, so it depends on their order, and the modes differ
there.  In lazy mode tuples come in the order of the streams.  In eager mode a name is bound to a
scan, which has its tuples in their own order: a stored relation is a bag.  So a limit takes the
same in both modes if it takes the least tuples of its input in lazy mode
(`Query.TakesLeast`), and then its query is as good as one without limits.

Two completed runs of a program make the same steps as long as the conditions of its loops are such
queries (`Alongside`).  Other limits do not matter for the steps: a name whose query has one is
bound to other tuples in eager mode (`Query.Follows`), and what does not use it stays the same.  So
a dump has the same tuples in both modes if the limits in its query, and in the conditions before
it, take the least ones (`Program.dumps_agree`).  A limit of such a query has the same tuples in no
other case (`Session.Follows.perm_limit_iff`).
-/

namespace BagQuery

open Attempt

/-! ## Queries with limits -/

namespace Query

/-- Each limit in the query takes the least tuples of its input: those that it takes are the first
ones of the sorted input, in whatever order. -/
def TakesLeast (env : Environment) (store : Store) : Query → Prop
  | load .. | table .. | scan .. => True
  | join left right .. | setOp _ left right =>
    left.TakesLeast env store ∧ right.TakesLeast env store
  | foreach input .. | distinct input => input.TakesLeast env store
  | limit input count => input.TakesLeast env store ∧
      ∀ ts, input.Yields env store ts → (ts.take count).Perm ((Tuple.sorted ts).take count)

instance decidableTakesLeast (env : Environment) (store : Store) :
    (q : Query) → Decidable (q.TakesLeast env store)
  | load .. | table .. | scan .. => .isTrue trivial
  | join left right .. | setOp _ left right =>
    have := decidableTakesLeast env store left
    have := decidableTakesLeast env store right
    inferInstanceAs (Decidable (_ ∧ _))
  | foreach input .. | distinct input => decidableTakesLeast env store input
  | limit input count =>
    have := decidableTakesLeast env store input
    match h : (input.drain env store).outcome with
    | .ok ts => decidable_of_iff (input.TakesLeast env store ∧
        -- a bag sorts its elements as well, and this can be computed
        (ts.take count).Perm ((Bag.ofList ts).elements.take count)) (by
        rw [Bag.elements_ofList]
        refine and_congr_right fun _ => ⟨fun htake us hus => ?_, fun htake => ?_⟩
        · rw [hus.unique (yields_iff.2 h)]
          exact htake
        · exact htake ts (yields_iff.2 h))
    | .error e => decidable_of_iff (input.TakesLeast env store) (by
        refine ⟨fun hinput => ⟨hinput, fun ts hts => ?_⟩, fun hleast => hleast.1⟩
        rw [yields_iff.1 hts] at h
        cases h)

/-- The second query has the schema of the first one.  If limits take the least tuples, it has the
same tuples, too. -/
structure Follows (env : Environment) (store store' : Store) (q q' : Query) : Prop where
  schema : q.schema = q'.schema
  equivalent : ∀ ts, q'.Yields env store' ts → q.TakesLeast env store →
    q.Equivalent env store store' q'

/-- The second query follows the first one, and yields the elements of a bag. -/
structure FollowsBag (env : Environment) (store store' : Store) (q q' : Query) : Prop
    extends q.Follows env store store' q' where
  elements : ∃ bag : Bag, q'.Yields env store' bag.elements

variable {env : Environment} {store store' : Store} {q q' : Query}

namespace FollowsBag

theorem equivalent_of_takesLeast (h : q.FollowsBag env store store' q')
    (hleast : q.TakesLeast env store) : q.Equivalent env store store' q' := by
  obtain ⟨bag, hbag⟩ := h.elements
  exact h.equivalent _ hbag hleast

/-- What the bag has is the sorted input. -/
theorem yields_sorted (h : q.FollowsBag env store store' q') (hleast : q.TakesLeast env store)
    {ts : List Tuple} (hts : q.Yields env store ts) :
    q'.Yields env store' (Tuple.sorted ts) := by
  obtain ⟨bag, hbag⟩ := h.elements
  have hperm := (h.equivalent_of_takesLeast hleast).perm hts hbag
  have hsorted : bag.elements = Tuple.sorted ts :=
    Tuple.eq_of_perm (hperm.symm.trans (Tuple.sorted_perm ts).symm) bag.sorted_elements
      (Tuple.pairwise_sorted ts)
  rw [← hsorted]
  exact hbag

/-- **A limit that takes the least tuples of its input takes the same of the bag.** -/
theorem limit (h : q.FollowsBag env store store' q') {count : Nat}
    (hleast : (Query.limit q count).TakesLeast env store) :
    Equivalent env store store' (.limit q count) (.limit q' count) := by
  obtain ⟨hinput, htake⟩ := hleast
  refine (h.equivalent_of_takesLeast hinput).limit fun ts ts' hts hts' => ?_
  rw [hts'.unique (h.yields_sorted hinput hts)]
  exact htake ts hts

end FollowsBag

/-- Operators take bags that follow to queries that follow. -/
theorem kept_follows (hstore : store.WellTyped) :
    Expr.Kept (FollowsBag env store store') fun _ => Follows env store store' where
  schema h := h.schema
  load _ := ⟨rfl, fun _ hts _ => .load hts⟩
  table hrows := ⟨rfl, fun _ _ _ => .table hrows⟩
  reference h := h.toFollows
  distinct h := by
    refine ⟨h.schema, fun ts hts hleast => ?_⟩
    obtain ⟨us, hus⟩ := yields_of_distinct hts
    exact (h.equivalent us hus hleast).distinct
  limit h := ⟨h.schema, fun _ _ hleast => h.limit hleast⟩
  setOp hl hr htypes := by
    refine ⟨hl.schema, fun _ _ hleast => ?_⟩
    obtain ⟨hleft, hright⟩ := hleast
    exact (hl.equivalent_of_takesLeast hleft).setOp _ (hr.equivalent_of_takesLeast hright) htypes
  foreach h htypes :=
    ⟨rfl, fun _ _ hleast => (h.equivalent_of_takesLeast hleast).foreach hstore htypes⟩
  join hl hr htypes := by
    refine ⟨rfl, fun _ _ hleast => ?_⟩
    obtain ⟨hleft, hright⟩ := hleast
    exact (hl.equivalent_of_takesLeast hleft).join (hr.equivalent_of_takesLeast hright) _ htypes

end Query

/-! ## Sessions -/

namespace Session

/-- A lazy session, and an eager session that binds the same names to queries that follow. -/
structure Follows (c c' : Settings) (s s' : Session) : Prop where
  sound : s.Sound c fun _ => True
  stored : s'.OneRelationPerName c'
  bindings : s.bindings.Related (Query.Follows c'.env .empty s'.database.store) s'.bindings

variable {c c' : Settings} {s s' : Session}

theorem Sound.store_eq_empty {loads : String → Prop} (h : s.Sound c loads) (hmode : c.mode = .lazy) :
    s.database.store = .empty := by
  cases h with
  | lazy _ hempty => exact hempty
  | eager hmode' => rw [hmode] at hmode'; cases hmode'

theorem OneRelationPerName.yields_elements (h : s.OneRelationPerName c) (env : Environment)
    {name : String} {q : Query} (hq : s.bindings.get? name = some q) :
    ∃ bag : Bag, q.Yields env s.database.store bag.elements := by
  obtain ⟨n, schema, -, rfl⟩ := h.bound name q hq
  obtain ⟨r, hr, hschema⟩ := h.schemas name _ schema hq
  exact ⟨r.bag, .scan hr hschema.symm⟩

namespace Follows

theorem fresh (c c' : Settings) : Follows c c' .fresh .fresh :=
  ⟨.fresh c _, .fresh c', fun _ => .none⟩

theorem reading (h : Follows c c' s s') (n n' : Nat) : Follows c c' (s.reading n) (s'.reading n') :=
  ⟨h.sound.reading n, h.stored.reading n', h.bindings⟩

/-- **An expression is analyzed alike in both sessions.** -/
theorem analyze (h : Follows c c' s s') (x : Expr) :
    Alike (Query.Follows c'.env .empty s'.database.store) (x.analyze s.bindings)
      (x.analyze s'.bindings) := by
  have hrelated : s.bindings.Related (Query.FollowsBag c'.env .empty s'.database.store)
      s'.bindings := by
    intro name
    rcases h.bindings.cases name with ⟨hb, hb'⟩ | ⟨q, q', hb, hb', hq⟩
    · rw [hb, hb']
      exact .none
    · rw [hb, hb']
      exact .some ⟨hq, h.stored.yields_elements c'.env hb'⟩
  exact (Query.kept_follows .empty).alike_analyze hrelated x

/-- An assignment that is completed in both modes. -/
theorem assign (hmodes : c.Modes c') (h : Follows c c' s s') (name : String) (x : Expr)
    (hend : (s'.assign c' name x).ending = .completed) :
    Follows c c' (s.assign c name x).session (s'.assign c' name x).session := by
  have hsound : (s.assign c name x).session.Sound c fun _ => True :=
    h.sound.assign_lazy hmodes.lazy name fun _ _ => trivial
  rw [assign_eager hmodes.eager] at hend ⊢
  unfold Session.assign at *
  rcases (h.analyze x).cases with ⟨e, hs, hs'⟩ | ⟨q, q', hs, hs', hq⟩
  · rw [hs'] at hend
    cases hend
  rw [hs, hmodes.lazy] at hsound ⊢
  rw [hs'] at hend ⊢
  dsimp only at hend ⊢
  cases hdrain : (q'.drain c'.env s'.database.store).outcome with
  | error e => rw [hdrain] at hend; cases hend
  | ok ts =>
    have hyields := Query.yields_iff.2 hdrain
    have hread := h.reading 0 (q'.drain c'.env s'.database.store).scans
    refine ⟨hsound, hread.stored.assigned name _ _, ?_⟩
    refine related_assigned c (B := Query.Follows c'.env .empty) hread.stored hread.bindings name q
      _ _ (fun hr hkey => ⟨hr.schema, fun us hus hleast => ?_⟩) ⟨hq.schema, fun _ _ hleast => ?_⟩
    · exact (hr.equivalent us (hus.scan_congr hkey.symm) hleast).scan_congr hkey
    · exact (hq.equivalent ts hyields hleast).of_stored hyields
        (hread.stored.store_assigned_self name _ _)

/-- **An expression has the same tuples in both modes**, if it has any in both, where its limits
take the least ones. -/
theorem perm_of_tuplesOf (hmodes : c.Modes c') (h : Follows c c' s s') {x : Expr}
    (hleast : ∀ q, x.analyze s.bindings = .ok q → q.TakesLeast c.env s.database.store)
    {q q' : Query} {ts ts' : List Tuple} (hs : (s.tuplesOf c x).1 = .ok (q, ts))
    (hs' : (s'.tuplesOf c' x).1 = .ok (q', ts')) : ts.Perm ts' := by
  have hempty := h.sound.store_eq_empty hmodes.lazy
  rw [hempty, hmodes.env] at hleast
  obtain ⟨hq, hdrain⟩ := tuplesOf_eq_ok hs
  obtain ⟨hq', hdrain'⟩ := tuplesOf_eq_ok hs'
  rw [hempty, hmodes.env] at hdrain
  have hfollows : q.Follows c'.env .empty s'.database.store q' := by
    have halike := h.analyze x
    rw [hq, hq'] at halike
    exact halike
  have hyields' := Query.yields_iff.2 hdrain'
  exact (hfollows.equivalent ts' hyields' (hleast q hq)).perm (Query.yields_iff.2 hdrain) hyields'

theorem tuplesOf_session (h : Follows c c' s s') (x : Expr) :
    Follows c c' (s.tuplesOf c x).2 (s'.tuplesOf c' x).2 := by
  obtain ⟨n, hn⟩ := tuplesOf_reads c x s
  obtain ⟨n', hn'⟩ := tuplesOf_reads c' x s'
  rw [hn, hn']
  exact h.reading n n'

/-- A condition that is tested without a failure in both modes has the same verdict. -/
theorem test (hmodes : c.Modes c') (h : Follows c c' s s') {condition : Expr} {finished : Nat}
    (hleast : ∀ q, condition.analyze s.bindings = .ok q → q.TakesLeast c.env s.database.store)
    {again again' : Bool} (hs : (s.test c condition finished).1 = .ok again)
    (hs' : (s'.test c' condition finished).1 = .ok again') : again = again' := by
  obtain ⟨⟨q, ts⟩, hts, hverdict⟩ := bind_eq_ok_iff.1 hs
  obtain ⟨⟨q', ts'⟩, hts', hverdict'⟩ := bind_eq_ok_iff.1 hs'
  rw [verdict_perm _ _ (h.perm_of_tuplesOf hmodes hleast hts hts'), hmodes.maxIterations] at hverdict
  exact Except.ok.inj (hverdict.symm.trans hverdict')

/-- **A limit has the same tuples in both modes only if it takes the least ones**, where the limits
in what it is a limit of do. -/
theorem perm_limit_iff (hmodes : c.Modes c') (h : Follows c c' s s') {name : String} {count : Nat}
    {q r r' : Query} (hname : s.bindings.get? name = some q)
    (hleast : q.TakesLeast c.env s.database.store) {ts ts' : List Tuple}
    (hs : (s.tuplesOf c (.limit name count)).1 = .ok (r, ts))
    (hs' : (s'.tuplesOf c' (.limit name count)).1 = .ok (r', ts')) :
    ts.Perm ts' ↔ (Query.limit q count).TakesLeast c.env s.database.store := by
  have hempty := h.sound.store_eq_empty hmodes.lazy
  obtain ⟨hr, hdrain⟩ := tuplesOf_eq_ok hs
  obtain ⟨hr', hdrain'⟩ := tuplesOf_eq_ok hs'
  rw [hempty, hmodes.env] at hleast hdrain ⊢
  rcases h.bindings.cases name with ⟨hb, -⟩ | ⟨_, q', hb, hb', hq⟩
  · rw [hname] at hb
    cases hb
  rw [hname] at hb
  cases hb
  have hr : r = .limit q count := by
    rw [Expr.analyze, Bindings.resolve, hname] at hr
    exact (Except.ok.inj hr).symm
  have hr' : r' = .limit q' count := by
    rw [Expr.analyze, Bindings.resolve, hb'] at hr'
    exact (Except.ok.inj hr').symm
  subst hr hr'
  -- the input of the eager limit is sorted
  have hbag : q.FollowsBag c'.env .empty s'.database.store q' :=
    ⟨hq, h.stored.yields_elements c'.env hb'⟩
  obtain ⟨us, -, hus, -, -⟩ := (hbag.equivalent_of_takesLeast hleast).tuples
  have hts := (Query.yields_iff.2 hdrain).unique (hus.limit count)
  have hts' := (Query.yields_iff.2 hdrain').unique ((hbag.yields_sorted hleast hus).limit count)
  rw [hts, hts']
  constructor
  · intro hperm
    refine ⟨hleast, fun us' hus' => ?_⟩
    rw [hus'.unique hus]
    exact hperm
  · intro hlimit
    exact hlimit.2 us hus

end Follows

end Session

/-! ## Runs side by side -/

/-- The action is the test of a condition. -/
def Action.isTest : Action → Bool
  | test .. => true
  | statement _ => false

/-- The action puts out tuples. -/
def Action.isDump : Action → Bool
  | statement (.dump _) => true
  | _ => false

/-- The limits in the query of the step take the least tuples. -/
def Step.TakesLeast (c : Settings) (step : Step) : Prop :=
  ∀ x, step.action.expr? = some x → ∀ q, x.analyze step.before.bindings = .ok q →
    q.TakesLeast c.env step.before.database.store

instance Step.decidableTakesLeast (c : Settings) (step : Step) : Decidable (step.TakesLeast c) :=
  match hx : step.action.expr? with
  | none => .isTrue fun x h => by rw [hx] at h; cases h
  | some x =>
    match hq : x.analyze step.before.bindings with
    | .error e => .isTrue fun y hy q h => by
        rw [hx] at hy
        cases hy
        rw [hq] at h
        cases h
    | .ok q => decidable_of_iff (q.TakesLeast c.env step.before.database.store) (by
        constructor
        · intro hleast y hy r hr
          rw [hx] at hy
          cases hy
          rw [hq] at hr
          cases hr
          exact hleast
        · intro hleast
          exact hleast x hx q hq)

/-- The limits in the conditions that are tested take the least tuples. -/
def Step.Tested (c : Settings) (steps : List Step) : Prop :=
  ∀ step ∈ steps, step.action.isTest = true → step.TakesLeast c

instance Step.decidableTested (c : Settings) (steps : List Step) : Decidable (Step.Tested c steps) :=
  inferInstanceAs (Decidable (∀ step ∈ steps, step.action.isTest = true → step.TakesLeast c))

/-- The same action at the same place of a program, in a lazy session and in an eager one. -/
structure Step.Abreast (c c' : Settings) (step step' : Step) : Prop where
  place : step.place = step'.place
  action : step.action = step'.action
  sessions : Session.Follows c c' step.before step'.before

/-- Steps side by side, up to a condition with another limit. -/
inductive Alongside (c c' : Settings) : List Step → List Step → Prop
  | nil : Alongside c c' [] []
  | cons {step step' : Step} {steps steps' : List Step} : step.Abreast c c' step' →
      (Step.Tested c [step] → Alongside c c' steps steps') →
        Alongside c c' (step :: steps) (step' :: steps')

namespace Alongside

variable {c c' : Settings} {xs xs' ys ys' : List Step}

theorem append (h : Alongside c c' xs xs') (h' : Step.Tested c xs → Alongside c c' ys ys') :
    Alongside c c' (xs ++ ys) (xs' ++ ys') := by
  induction h with
  | nil => exact h' nofun
  | cons habreast _ ih =>
    refine .cons habreast fun hstep => ih hstep fun hrest => h' ?_
    exact List.forall_mem_cons.2 ⟨List.forall_mem_singleton.1 hstep, hrest⟩

/-- Up to a step that is reached, the eager run makes the same steps. -/
theorem split {pre post steps' : List Step} {step : Step}
    (h : Alongside c c' (pre ++ step :: post) steps') (htested : Step.Tested c pre) :
    ∃ pre' step' post', steps' = pre' ++ step' :: post' ∧
      List.Forall₂ (Step.Abreast c c') pre pre' ∧ step.Abreast c c' step' := by
  induction pre generalizing steps' with
  | nil =>
    cases h with
    | @cons _ step' _ post' habreast _ => exact ⟨[], step', post', rfl, .nil, habreast⟩
  | cons first pre ih =>
    cases h with
    | @cons _ first' _ rest' habreast hrest =>
      obtain ⟨hfirst, hpre⟩ := List.forall_mem_cons.1 htested
      obtain ⟨pre', step', post', rfl, hforall, hstep⟩ :=
        ih (hrest (List.forall_mem_singleton.2 hfirst)) hpre
      exact ⟨first' :: pre', step', post', rfl, .cons habreast hforall, hstep⟩

end Alongside

/-- Runs side by side, and where they get to. -/
structure RunsAlongside (c c' : Settings) (steps steps' : List Step) (o o' : Outcome) : Prop where
  alongside : Alongside c c' steps steps'
  sessions : Step.Tested c steps → Session.Follows c c' o.session o'.session

namespace RunsAlongside

variable {c c' : Settings}

theorem cons {step step' : Step} {steps steps' : List Step} {o o' : Outcome}
    (habreast : step.Abreast c c' step')
    (h : Step.Tested c [step] → RunsAlongside c c' steps steps' o o') :
    RunsAlongside c c' (step :: steps) (step' :: steps') o o' := by
  refine ⟨.cons habreast fun htested => (h htested).alongside, fun htested => ?_⟩
  obtain ⟨hstep, hsteps⟩ := List.forall_mem_cons.1 htested
  exact (h (List.forall_mem_singleton.2 hstep)).sessions hsteps

theorem andThen {steps steps' : List Step} {o o' : Outcome}
    (h : RunsAlongside c c' steps steps' o o') (hend : o.ending = .completed)
    (hend' : o'.ending = .completed) {next next' : Session → Outcome}
    {more more' : Session → List Step}
    (hnext : Session.Follows c c' o.session o'.session →
      RunsAlongside c c' (more o.session) (more' o'.session) (next o.session)
        (next' o'.session)) :
    RunsAlongside c c' (steps ++ o.stepsThen more) (steps' ++ o'.stepsThen more')
      (o.andThen next) (o'.andThen next') := by
  rw [Outcome.stepsThen_of_completed hend, Outcome.stepsThen_of_completed hend',
    Outcome.andThen_of_completed hend, Outcome.andThen_of_completed hend']
  refine ⟨h.alongside.append fun htested => (hnext (h.sessions htested)).alongside,
    fun htested => ?_⟩
  obtain ⟨hsteps, hmore⟩ := List.forall_mem_append.1 htested
  exact (hnext (h.sessions hsteps)).sessions hmore

end RunsAlongside

/-- A statement that is no loop. -/
theorem Statement.alongside_simple {c c' : Settings} (hmodes : c.Modes c') {st : Statement}
    (hst : st.isLoop = false) (passes : Nat) (place : List Nat) {s s' : Session}
    (h : Session.Follows c c' s s') (hend' : (st.run c' passes s').ending = .completed) :
    RunsAlongside c c' (st.trace c passes place s) (st.trace c' passes place s')
      (st.run c passes s) (st.run c' passes s') := by
  rw [trace_simple hst, trace_simple hst]
  refine .cons ⟨rfl, rfl, h⟩ fun _ => ⟨.nil, fun _ => ?_⟩
  cases st with
  | assign name x => exact h.assign hmodes name x hend'
  | dump x =>
    obtain ⟨n, hn⟩ := Session.dump_reads .list c x s
    obtain ⟨n', hn'⟩ := Session.dump_reads .list c' x s'
    rw [run_dump, run_dump, hn, hn']
    exact h.reading n n'
  | describe name =>
    rw [run_describe, run_describe, Session.report_session, Session.report_session]
    exact h
  | explain name =>
    rw [run_explain, run_explain, Session.report_session, Session.report_session]
    exact h
  | doWhile => cases hst

/-- Passes of a loop, if the runs of the body go side by side. -/
theorem Session.alongside_loop {c c' : Settings} (hmodes : c.Modes c')
    {body body' : Session → Outcome} {bodyTrace bodyTrace' : List Nat → Session → List Step}
    (hbody : ∀ place s s', Follows c c' s s' → (body s).ending = .completed →
      (body' s').ending = .completed →
        RunsAlongside c c' (bodyTrace place s) (bodyTrace' place s') (body s) (body' s'))
    (condition : Expr) (place : List Nat) (passes finished : Nat) {s s' : Session}
    (h : Follows c c' s s')
    (hend : (loop c body condition passes finished s).ending = .completed)
    (hend' : (loop c' body' condition passes finished s').ending = .completed) :
    RunsAlongside c c' (loopTrace c body bodyTrace condition place passes finished s)
      (loopTrace c' body' bodyTrace' condition place passes finished s')
      (loop c body condition passes finished s)
      (loop c' body' condition passes finished s') := by
  induction passes generalizing finished s s' with
  | zero => cases hend
  | succ passes ih =>
    rw [loop_succ] at hend hend'
    rw [loop_succ, loop_succ, loopTrace, loopTrace]
    obtain ⟨hfirst, hrest⟩ := Outcome.of_andThen_completed hend
    obtain ⟨hfirst', hrest'⟩ := Outcome.of_andThen_completed hend'
    refine (hbody _ s s' h hfirst hfirst').andThen hfirst hfirst' fun h₁ => ?_
    have hsession : Follows c c' ((body s).session.test c condition finished).2
        ((body' s').session.test c' condition finished).2 := h₁.tuplesOf_session condition
    have hverdict : Step.Tested c [⟨place ++ [finished + 1], .test condition finished,
        (body s).session⟩] → ∀ {again again' : Bool},
          ((body s).session.test c condition finished).1 = .ok again →
            ((body' s').session.test c' condition finished).1 = .ok again' → again = again' :=
      fun htested => h₁.test hmodes (List.forall_mem_singleton.1 htested rfl condition rfl)
    cases ht : (body s).session.test c condition finished with
    | mk verdict s₂ =>
      cases ht' : (body' s').session.test c' condition finished with
      | mk verdict' s₂' =>
        rw [ht, ht'] at hsession hverdict
        rw [ht] at hrest
        rw [ht'] at hrest'
        -- no condition fails in a run that is completed
        cases verdict with
        | error e => cases hrest
        | ok again =>
          cases verdict' with
          | error e => cases hrest'
          | ok again' =>
            refine .cons ⟨rfl, rfl, h₁⟩ fun htested => ?_
            obtain rfl := hverdict htested rfl rfl
            cases again with
            | false => exact ⟨.nil, fun _ => hsession⟩
            | true => exact ih (finished + 1) hsession hrest hrest'

/-- **Statements run side by side**, if they are completed in both modes. -/
theorem Statement.alongside {c c' : Settings} (hmodes : c.Modes c') (passes : Nat) :
    (∀ (st : Statement) (place : List Nat) (s s' : Session), Session.Follows c c' s s' →
      (st.run c passes s).ending = .completed → (st.run c' passes s').ending = .completed →
        RunsAlongside c c' (st.trace c passes place s) (st.trace c' passes place s')
          (st.run c passes s) (st.run c' passes s')) ∧
    ∀ (program : List Statement) (place : List Nat) (index : Nat) (s s' : Session),
      Session.Follows c c' s s' → (runAll c passes program s).ending = .completed →
        (runAll c' passes program s').ending = .completed →
          RunsAlongside c c' (traceAll c passes place index program s)
            (traceAll c' passes place index program s') (runAll c passes program s)
            (runAll c' passes program s') := by
  apply Statement.induction
  case simple =>
    intro st hst place s s' h _ hend'
    exact alongside_simple hmodes hst passes place h hend'
  case doWhile =>
    intro body condition ih place s s' h hend hend'
    rw [run_doWhile] at hend hend' ⊢
    rw [run_doWhile]
    exact Session.alongside_loop hmodes (fun place => ih place 0) condition place passes 0 h hend
      hend'
  case nil =>
    intro place index s s' h _ _
    exact ⟨.nil, fun _ => h⟩
  case cons =>
    intro st rest hst hrest place index s s' h hend hend'
    rw [runAll_cons] at hend hend'
    obtain ⟨hfirst, hmore⟩ := Outcome.of_andThen_completed hend
    obtain ⟨hfirst', hmore'⟩ := Outcome.of_andThen_completed hend'
    rw [traceAll, traceAll, runAll_cons, runAll_cons]
    exact (hst (place ++ [index]) s s' h hfirst hfirst').andThen hfirst hfirst'
      fun h₁ => hrest place (index + 1) _ _ h₁ hmore hmore'

/-! ## Dumps -/

/-- The tuples of a dump. -/
def Output.dumped? : Output → Option (List Tuple)
  | dump _ ts => some ts
  | describe .. | explain .. => none

/-- The tuples that were dumped, dump after dump. -/
def Outcome.dumps (o : Outcome) : List (List Tuple) := o.outputs.filterMap Output.dumped?

/-- The number of dumps among some steps. -/
def Step.dumpCount (steps : List Step) : Nat := steps.countP fun step => step.action.isDump

/-- Dump number `k` of a run, counted from zero, comes behind conditions whose limits take the least
tuples, and is of an expression whose limits do, too. -/
def Program.DumpTakesLeast (c : Settings) (passes : Nat) (program : Program) (k : Nat) : Prop :=
  ∃ i, ∃ step ∈ (program.trace c passes .fresh)[i]?, step.action.isDump = true ∧
    Step.dumpCount ((program.trace c passes .fresh).take i) = k ∧
    Step.Tested c ((program.trace c passes .fresh).take i) ∧ step.TakesLeast c

section Dumps

variable {c c' : Settings} {s : Session} {step : Step}

theorem Session.dumps_dump {x : Expr} (h : (s.dump .list c x).ending = .completed) :
    ∃ q ts, (s.tuplesOf c x).1 = .ok (q, ts) ∧ (s.dump .list c x).dumps = [ts] := by
  rw [dump_list] at *
  cases hx : s.tuplesOf c x with
  | mk outcome s' =>
    rw [hx] at h
    cases outcome with
    | error e => cases h
    | ok p => exact ⟨p.1, p.2, rfl, rfl⟩

theorem Step.dumps_of_isDump (hend : (step.after c).ending = .completed)
    (hdump : step.action.isDump = true) : ∃ x q ts, step.action = .statement (.dump x) ∧
      (step.before.tuplesOf c x).1 = .ok (q, ts) ∧ (step.after c).dumps = [ts] := by
  obtain ⟨place, action, s⟩ := step
  cases action with
  | test => cases hdump
  | statement st =>
    cases st with
    | assign | describe | explain | doWhile => cases hdump
    | dump x =>
      obtain ⟨q, ts, hts, hdumps⟩ := Session.dumps_dump hend
      exact ⟨x, q, ts, rfl, hts, hdumps⟩

theorem Step.dumps_of_not_isDump (hdump : step.action.isDump = false) :
    (step.after c).dumps = [] := by
  obtain ⟨place, action, s⟩ := step
  cases action with
  | test condition finished =>
    have houtputs := Session.outputs_testOutcome c condition finished s
    exact congrArg (List.filterMap Output.dumped?) houtputs
  | statement st =>
    cases st with
    | dump => cases hdump
    | doWhile => rfl
    | assign name x =>
      have houtputs := Session.outputs_assign c name x s
      exact congrArg (List.filterMap Output.dumped?) houtputs
    | describe name =>
      show (s.report .list name _).dumps = []
      rw [Session.report_list]
      split <;> rfl
    | explain name =>
      show (s.report .list name _).dumps = []
      rw [Session.report_list]
      split <;> rfl

theorem Step.length_dumps {steps : List Step} (h : Stopped c steps .completed) :
    (steps.flatMap fun step => (step.after c).dumps).length = dumpCount steps := by
  induction steps with
  | nil => rfl
  | cons step steps ih =>
    obtain ⟨hstep, hsteps⟩ := List.forall_mem_cons.1 h
    rw [List.flatMap_cons, List.length_append, ih hsteps, dumpCount, dumpCount, List.countP_cons]
    cases hdump : step.action.isDump with
    | false =>
      rw [Step.dumps_of_not_isDump hdump]
      exact Nat.zero_add _
    | true =>
      obtain ⟨x, q, ts, -, -, hts⟩ := Step.dumps_of_isDump hstep hdump
      rw [hts]
      exact Nat.add_comm 1 _

/-- The dumps of a completed run are those of its steps. -/
theorem Covers.dumps_getElem? {pre post : List Step} {o : Outcome}
    (h : Covers c s (pre ++ step :: post) o) (hend : o.ending = .completed) {ts : List Tuple}
    (hts : (step.after c).dumps = [ts]) : o.dumps[Step.dumpCount pre]? = some ts := by
  have hstopped := h.stopped
  rw [hend] at hstopped
  have hdumps : o.dumps = (pre.flatMap fun step => (step.after c).dumps) ++
      ts :: post.flatMap fun step => (step.after c).dumps := by
    rw [Outcome.dumps, h.outputs, List.filterMap_flatMap, List.flatMap_append, List.flatMap_cons]
    show _ ++ ((step.after c).dumps ++ _) = _
    rw [hts]
    rfl
  rw [hdumps, ← Step.length_dumps (List.forall_mem_append.1 hstopped).1]
  simp

theorem Step.dumpCount_of_abreast {steps steps' : List Step}
    (h : List.Forall₂ (Step.Abreast c c') steps steps') : dumpCount steps = dumpCount steps' := by
  induction h with
  | nil => rfl
  | cons hstep _ ih =>
    unfold dumpCount at *
    rw [List.countP_cons, List.countP_cons, ih, hstep.action]

end Dumps

/-- **A dump has the same tuples in lazy and in eager mode**, if both runs are completed, where the
limits in its query, and in the conditions tested before it, take the least tuples in the lazy
run. -/
theorem Program.dumps_agree {c c' : Settings} (hmodes : c.Modes c') (passes : Nat)
    (program : Program) (hlazy : (program.run c passes .fresh).ending = .completed)
    (heager : (program.run c' passes .fresh).ending = .completed) (k : Nat)
    (hk : program.DumpTakesLeast c passes k) :
    ∃ ts ts', (program.run c passes .fresh).dumps[k]? = some ts ∧
      (program.run c' passes .fresh).dumps[k]? = some ts' ∧ ts.Perm ts' := by
  obtain ⟨i, step, hi, hdump, rfl, htested, hleast⟩ := hk
  have htrace : program.trace c passes .fresh = (program.trace c passes .fresh).take i ++
      step :: (program.trace c passes .fresh).drop (i + 1) := by
    obtain ⟨hlt, rfl⟩ := List.getElem?_eq_some_iff.1 hi
    rw [List.getElem_cons_drop, List.take_append_drop]
  have hruns : RunsAlongside c c' (program.trace c passes .fresh) (program.trace c' passes .fresh)
      (program.run c passes .fresh) (program.run c' passes .fresh) :=
    (Statement.alongside hmodes passes).2 program [] 0 .fresh .fresh (.fresh c c') hlazy heager
  have hcovers := program.covers_trace c passes .fresh
  have hcovers' := program.covers_trace c' passes .fresh
  have halongside := hruns.alongside
  rw [htrace] at hcovers halongside
  obtain ⟨pre', step', post', htrace', hpre, hstep⟩ := halongside.split htested
  rw [htrace'] at hcovers'
  -- both steps are dumps of the same expression
  have hstopped := hcovers.stopped
  have hstopped' := hcovers'.stopped
  rw [hlazy] at hstopped
  rw [heager] at hstopped'
  obtain ⟨x, q, ts, hx, hts, hdumps⟩ :=
    Step.dumps_of_isDump (hstopped step (by simp)) hdump
  obtain ⟨x', q', ts', hx', hts', hdumps'⟩ :=
    Step.dumps_of_isDump (hstopped' step' (by simp)) (hstep.action ▸ hdump)
  have hsame : Action.statement (.dump x) = .statement (.dump x') :=
    hx.symm.trans (hstep.action.trans hx')
  cases hsame
  have hexpr : step.action.expr? = some x := by
    rw [hx]
    rfl
  refine ⟨ts, ts', hcovers.dumps_getElem? hlazy hdumps, ?_, ?_⟩
  · rw [Step.dumpCount_of_abreast hpre]
    exact hcovers'.dumps_getElem? heager hdumps'
  · exact hstep.sessions.perm_of_tuplesOf hmodes (hleast x hexpr) hts hts'

/-! ### Limits of a table -/

/-- A table that is not in order: dumps two of its rows, then one of them behind a loop. -/
def Program.limits : Program :=
  [.assign "t" (.table [⟨[.int 1]⟩, ⟨[.int 3]⟩, ⟨[.int 2]⟩] [⟨"n", .int⟩]),
    .assign "two" (.limit "t" 2),
    .dump (.reference "two"),
    .assign "one" (.limit "t" 1),
    .doWhile [.assign "rest" (.setOp .diff "one" "t")] (.limit "rest" 1),
    .dump (.setOp .union "one" "t")]

theorem Program.dumps_agree_limits :
    let lazy : Settings := ⟨.lazy, "owner", "run", none, fun _ => .refused "", none⟩
    let eager : Settings := ⟨.eager, "owner", "run", none, fun _ => .refused "", none⟩
    lazy.Modes eager ∧ (limits.run lazy 3 .fresh).ending = .completed ∧
      (limits.run eager 3 .fresh).ending = .completed ∧
      limits.DumpTakesLeast lazy 3 1 ∧
      (∃ ts ts', (limits.run lazy 3 .fresh).dumps[1]? = some ts ∧
        (limits.run eager 3 .fresh).dumps[1]? = some ts' ∧ ts.Perm ts') ∧
      (limits.run lazy 3 .fresh).dumps =
        [[⟨[.int 1]⟩, ⟨[.int 3]⟩], [⟨[.int 1]⟩, ⟨[.int 1]⟩, ⟨[.int 3]⟩, ⟨[.int 2]⟩]] ∧
      (limits.run eager 3 .fresh).dumps =
        [[⟨[.int 1]⟩, ⟨[.int 2]⟩], [⟨[.int 1]⟩, ⟨[.int 1]⟩, ⟨[.int 2]⟩, ⟨[.int 3]⟩]] := by
  intro lazy eager
  have hmodes : lazy.Modes eager := ⟨rfl, rfl, rfl, rfl⟩
  have hlazy : (limits.run lazy 3 .fresh).ending = .completed := by decide +kernel
  have heager : (limits.run eager 3 .fresh).ending = .completed := by decide +kernel
  have hleast : limits.DumpTakesLeast lazy 3 1 := ⟨6, by decide +kernel⟩
  refine ⟨hmodes, hlazy, heager, hleast, dumps_agree hmodes 3 limits hlazy heager 1 hleast, ?_, ?_⟩
  · decide +kernel
  · decide +kernel

/-- **In general the modes do not agree on limits**: the first of two rows is another in order. -/
theorem Program.dumps_disagree :
    ¬∀ (c c' : Settings) (passes : Nat) (program : Program), c.Modes c' →
      (program.run c passes .fresh).ending = .completed →
        (program.run c' passes .fresh).ending = .completed →
          ∀ (k : Nat) (ts ts' : List Tuple), (program.run c passes .fresh).dumps[k]? = some ts →
            (program.run c' passes .fresh).dumps[k]? = some ts' → ts.Perm ts' := by
  intro h
  let lazy : Settings := ⟨.lazy, "owner", "run", none, fun _ => .refused "", none⟩
  let eager : Settings := ⟨.eager, "owner", "run", none, fun _ => .refused "", none⟩
  let program : Program :=
    [.assign "t" (.table [⟨[.int 2]⟩, ⟨[.int 1]⟩] [⟨"n", .int⟩]), .dump (.limit "t" 1)]
  have hlazy : (program.run lazy 0 .fresh).ending = .completed := by decide +kernel
  have heager : (program.run eager 0 .fresh).ending = .completed := by decide +kernel
  have hdumped : (program.run lazy 0 .fresh).dumps[0]? = some [⟨[.int 2]⟩] := by decide +kernel
  have hdumped' : (program.run eager 0 .fresh).dumps[0]? = some [⟨[.int 1]⟩] := by decide +kernel
  have hperm := h lazy eager 0 program ⟨rfl, rfl, rfl, rfl⟩ hlazy heager 0 _ _ hdumped hdumped'
  revert hperm
  decide

end BagQuery
