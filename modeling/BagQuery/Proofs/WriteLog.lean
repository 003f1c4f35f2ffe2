import BagQuery.Proofs.DictionaryKeys
import BagQuery.Proofs.PlanTyping
import BagQuery.Proofs.Trace

/-!
# What a run writes

`Plan.writes` lists the keys that the evaluation of a plan writes, and `Step.writes` those that an
action of a run does: an assignment in eager mode writes one key if its query can be drained, and
nothing else ever writes.  That these are all keys is `Step.logged`: the traffic counts one write
for each of them, and what is stored under any other key can only be removed.  Along a run the
writes add up (`Chain.writes_eq`).
-/

namespace BagQuery

/-! ## Evaluation -/

/-- The keys that the evaluation of a plan writes. -/
def Plan.writes (env : Environment) (store : Store) : Plan → List Key
  | query _ => []
  | insert key input | replace key input =>
    match (input.drain env store).outcome with
    | .ok _ => [key]
    | .error _ => []

theorem Store.get?_of_add {store store' : Store} {key k : Key} {schema : Schema} {bag : Bag}
    (h : store.add key schema bag = .ok store') (hk : k ≠ key) :
    store'.get? k = store.get? k := by
  unfold Store.add at h
  split at h
  · obtain ⟨_, -, h⟩ := Attempt.bind_eq_ok_iff.1 h
    cases h
    exact Dictionary.get?_insert_of_ne hk
  · cases h
    exact Dictionary.get?_insert_of_ne hk

/-- **An evaluation counts its writes, and changes nothing under other keys.** -/
theorem Database.evaluate_writes (env : Environment) (db : Database) (p : Plan) :
    (db.evaluate env p).2.traffic.writes = db.traffic.writes + (p.writes env db.store).length ∧
      ∀ key ∉ p.writes env db.store,
        (db.evaluate env p).2.store.get? key = db.store.get? key := by
  cases p with
  | query q => exact ⟨rfl, fun _ _ => rfl⟩
  | insert key input =>
    rw [evaluate, Plan.writes, Database.drain]
    cases (input.drain env db.store).outcome with
    | error e => exact ⟨rfl, fun _ _ => rfl⟩
    | ok tuples =>
      dsimp only [Database.insert]
      cases hadd : Store.add (db.scanned (input.drain env db.store).scans).store key input.schema
          (.ofList tuples) with
      | error e => exact ⟨rfl, fun _ _ => rfl⟩
      | ok store =>
        refine ⟨rfl, fun k hk => ?_⟩
        exact Store.get?_of_add hadd fun e => hk (List.mem_singleton.2 e)
  | replace key input =>
    rw [evaluate, Plan.writes, Database.drain]
    cases (input.drain env db.store).outcome with
    | error e => exact ⟨rfl, fun _ _ => rfl⟩
    | ok tuples =>
      refine ⟨rfl, fun k hk => ?_⟩
      exact Dictionary.get?_insert_of_ne fun e => hk (List.mem_singleton.2 e)

/-! ## Actions -/

/-- The keys that an action writes. -/
def Step.writes (c : Settings) (step : Step) : List Key :=
  match c.mode, step.action with
  | .eager, .statement (.assign name expr) =>
    match expr.analyze step.before.bindings with
    | .ok q => (Plan.replace (step.before.nextKey c name) q).writes c.env step.before.database.store
    | .error _ => []
  | _, _ => []

namespace Session

/-- Relations were read. -/
def reading (n : Nat) (s : Session) : Session := { s with database := s.database.scanned n }

theorem tuplesOf_reads (c : Settings) (expr : Expr) (s : Session) :
    ∃ n, (s.tuplesOf c expr).2 = s.reading n := by
  unfold tuplesOf
  split
  · exact ⟨0, rfl⟩
  · exact ⟨_, rfl⟩

theorem tuplesOf_outcome (c : Settings) (x : Expr) (s : Session) :
    (s.tuplesOf c x).1 = x.analyze s.bindings >>= fun q =>
      (q.drain c.env s.database.store).outcome.map (q, ·) := by
  rw [tuplesOf]
  cases x.analyze s.bindings <;> rfl

theorem tuplesOf_eq_ok {c : Settings} {x : Expr} {s : Session} {q : Query} {ts : List Tuple}
    (h : (s.tuplesOf c x).1 = .ok (q, ts)) :
    x.analyze s.bindings = .ok q ∧ (q.drain c.env s.database.store).outcome = .ok ts := by
  rw [tuplesOf_outcome] at h
  obtain ⟨r, hr, h⟩ := Attempt.bind_eq_ok_iff.1 h
  cases hdrain : (r.drain c.env s.database.store).outcome with
  | error e => rw [hdrain] at h; cases h
  | ok us => rw [hdrain] at h; cases h; exact ⟨hr, hdrain⟩

theorem tuplesOf_eq_error {c : Settings} {x : Expr} {s : Session} {e : Error}
    (h : (s.tuplesOf c x).1 = .error e) :
    x.analyze s.bindings = .error e ∨ ∃ q, x.analyze s.bindings = .ok q ∧
      (q.drain c.env s.database.store).outcome = .error e := by
  rw [tuplesOf_outcome] at h
  rcases Attempt.bind_eq_error_iff.1 h with h | ⟨q, hq, h⟩
  · exact Or.inl h
  · right
    refine ⟨q, hq, ?_⟩
    cases hdrain : (q.drain c.env s.database.store).outcome with
    | error e' => rw [hdrain] at h; cases h; rfl
    | ok ts => rw [hdrain] at h; cases h

theorem test_reads (c : Settings) (condition : Expr) (finished : Nat) (s : Session) :
    ∃ n, (s.test c condition finished).2 = s.reading n := tuplesOf_reads c condition s

/-- A test fails, ends the loop, or asks for another pass. -/
theorem test_cases (c : Settings) (condition : Expr) (finished : Nat) (s : Session) :
    (∃ e n, s.test c condition finished = (.error e, s.reading n)) ∨
      (∃ n, s.test c condition finished = (.ok false, s.reading n)) ∨
        ∃ n, s.test c condition finished = (.ok true, s.reading n) := by
  obtain ⟨n, hn⟩ := test_reads c condition finished s
  cases htest : s.test c condition finished with
  | mk verdict s' =>
    rw [htest] at hn
    subst hn
    cases verdict with
    | error e => exact Or.inl ⟨e, n, rfl⟩
    | ok again =>
      cases again with
      | false => exact Or.inr (Or.inl ⟨n, rfl⟩)
      | true => exact Or.inr (Or.inr ⟨n, rfl⟩)

theorem dump_reads (sink : Sink) (c : Settings) (expr : Expr) (s : Session) :
    ∃ n, (s.dump sink c expr).session = s.reading n := by
  obtain ⟨n, hn⟩ := tuplesOf_reads c expr s
  refine ⟨n, ?_⟩
  rw [← hn, dump]
  split
  · next h => rw [h]; rfl
  · next h => rw [h]; exact Outcome.offered_session ..

theorem report_session (sink : Sink) (name : String) (output : Query → Output) (s : Session) :
    (s.report sink name output).session = s := by
  unfold report
  split
  · rfl
  · exact Outcome.offered_session ..

end Session

/-- The writes of an action are counted, and under any other key a relation can only go. -/
def Step.Logged (c : Settings) (step : Step) : Prop :=
  let before := step.before.database
  let after := (step.after c).session.database
  after.traffic.writes = before.traffic.writes + (step.writes c).length ∧
    ∀ key ∉ step.writes c, after.store.get? key = before.store.get? key ∨
      after.store.get? key = none

/-- Nothing is written where a name is bound. -/
theorem Session.bind_logged (c : Settings) (name : String) (q : Query) (s : Session) :
    (s.bind c name q).database.traffic.writes = s.database.traffic.writes ∧
      ∀ key, (s.bind c name q).database.store.get? key = s.database.store.get? key ∨
        (s.bind c name q).database.store.get? key = none := by
  rw [bind]
  cases s.bindings.get? name with
  | none => exact ⟨rfl, fun _ => Or.inl rfl⟩
  | some old =>
    dsimp only [release]
    split
    · split
      · next gone _ _ _ =>
        refine ⟨rfl, fun key => ?_⟩
        by_cases hkey : key = gone
        · subst hkey
          exact Or.inr (Dictionary.get?_erase_self ..)
        · exact Or.inl (Dictionary.get?_erase_of_ne hkey)
      · exact ⟨rfl, fun _ => Or.inl rfl⟩
    · exact ⟨rfl, fun _ => Or.inl rfl⟩

theorem Session.materialize_database (c : Settings) (name : String) (q : Query) (s : Session) :
    (s.materialize c name q).2.database =
      (s.database.evaluate c.env (.replace (s.nextKey c name) q)).2 := by
  unfold materialize
  dsimp only
  split
  · next h => rw [h]
  · next h => rw [h]

theorem Step.logged_of_reads {c : Settings} {step : Step} {n : Nat} (hwrites : step.writes c = [])
    (h : (step.after c).session = step.before.reading n) : step.Logged c := by
  unfold Logged
  rw [hwrites, h]
  exact ⟨rfl, fun _ _ => Or.inl rfl⟩

theorem Session.assign_logged (c : Settings) (name : String) (expr : Expr) (place : List Nat)
    (s : Session) : Step.Logged c ⟨place, .statement (.assign name expr), s⟩ := by
  cases hmode : c.mode with
  | lazy =>
    simp only [Step.Logged, Step.writes, Step.after, Action.run, Statement.run_assign, assign, hmode]
    cases expr.analyze s.bindings with
    | error e => exact ⟨rfl, fun _ _ => Or.inl rfl⟩
    | ok q =>
      obtain ⟨hwrites, hstore⟩ := s.bind_logged c name q
      exact ⟨hwrites, fun key _ => hstore key⟩
  | eager =>
    simp only [Step.Logged, Step.writes, Step.after, Action.run, Statement.run_assign, assign, hmode]
    cases expr.analyze s.bindings with
    | error e => exact ⟨rfl, fun _ _ => Or.inl rfl⟩
    | ok q =>
      obtain ⟨hwrites, hstore⟩ :=
        s.database.evaluate_writes c.env (.replace (s.nextKey c name) q)
      rw [← s.materialize_database c name q] at hwrites hstore
      dsimp only
      cases hm : s.materialize c name q with
      | mk outcome s₁ =>
        rw [hm] at hwrites hstore
        match outcome with
        | .error e => exact ⟨hwrites, fun key hkey => Or.inl (hstore key hkey)⟩
        | .ok scan =>
          obtain ⟨hbind, hgone⟩ := s₁.bind_logged c name scan
          refine ⟨hbind.trans hwrites, fun key hkey => ?_⟩
          rcases hgone key with h | h
          · exact Or.inl (h.trans (hstore key hkey))
          · exact Or.inr h

theorem Step.writes_eq_nil {c : Settings} {step : Step}
    (h : ∀ name expr, step.action ≠ .statement (.assign name expr)) : step.writes c = [] := by
  unfold writes
  split
  · next name expr _ haction => exact absurd haction (h name expr)
  · rfl

/-- **The keys of `Step.writes` are those that a step writes**, in either mode. -/
theorem Step.logged (c : Settings) (step : Step) : step.Logged c := by
  obtain ⟨place, action, s⟩ := step
  match action with
  | .test condition finished =>
    obtain ⟨n, hn⟩ := Session.test_reads c condition finished s
    exact logged_of_reads (writes_eq_nil nofun) ((Session.session_testOutcome ..).trans hn)
  | .statement (.assign name expr) => exact s.assign_logged c name expr place
  | .statement (.dump expr) =>
    obtain ⟨n, hn⟩ := Session.dump_reads .list c expr s
    exact logged_of_reads (writes_eq_nil nofun) hn
  | .statement (.describe name) | .statement (.explain name) =>
    exact logged_of_reads (n := 0) (writes_eq_nil nofun) (Session.report_session ..)
  | .statement (.doWhile body condition) =>
    exact logged_of_reads (n := 0) (writes_eq_nil nofun) rfl

/-- **The writes of a run are those of its steps.** -/
theorem Chain.writes_eq {c : Settings} {s s' : Session} {steps : List Step}
    (h : Chain c s steps s') : s'.database.traffic.writes =
      s.database.traffic.writes + (steps.flatMap (Step.writes c)).length := by
  induction h with
  | nil => rfl
  | cons step _ ih =>
    rw [ih, (step.logged c).1, List.flatMap_cons, List.length_append, Nat.add_assoc]

end BagQuery
