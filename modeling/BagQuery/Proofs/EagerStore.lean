import BagQuery.Proofs.StoredKeys
import BagQuery.Proofs.WriteLog

/-!
# The store of an eager run

In eager mode each assignment stores the tuples of its query under a key of its own and drops the
relation that the name was bound to before.  `Session.OneRelationPerName` says what that comes to:
every name is bound to the scan of a key with its own name and some number in it, and the store
holds those keys and no others.

An action can do three things to a session, and `Session.Change` lists them.  The invariant and
the numbers in the keys are read off that list, and hold along a run by induction over its chain
of steps.  A failing assignment is among them: it may have used up a number without a write, which
is why the numbers are bounded and not counted.
-/

namespace BagQuery

/-! ## What an action does -/

namespace Session

/-- A number was used up. -/
def counting (s : Session) : Session := { s with materialized := s.materialized + 1 }

/-- Tuples were stored for a name, which is not yet bound to them. -/
def storing (c : Settings) (name : String) (schema : Schema) (bag : Bag) (s : Session) : Session :=
  { s.counting with database := s.database.replace (s.nextKey c name) schema bag }

/-- The name is bound to a scan of the tuples that were stored for it. -/
def assigned (c : Settings) (name : String) (schema : Schema) (bag : Bag) (s : Session) : Session :=
  (s.storing c name schema bag).bind c name (.scan (s.nextKey c name) schema)

/-- The changes that an action makes in eager mode, with the keys that it writes. -/
inductive Change (c : Settings) (s : Session) : List Key → Session → Prop
  /-- Whatever reads at most: an action that is no assignment, or one that has no query. -/
  | reads (n : Nat) : Change c s [] (s.reading n)
  /-- An assignment whose query fails. -/
  | counts (n : Nat) : Change c s [] (s.reading n).counting
  /-- An assignment. -/
  | stores (n : Nat) (name : String) (schema : Schema) (bag : Bag) :
      Change c s [s.nextKey c name] ((s.reading n).assigned c name schema bag)

/-- Storing the tuples of a query: what the name is to be bound to, or the failure of the query. -/
theorem materialize_eq (c : Settings) (name : String) (q : Query) (s : Session) :
    let access := q.drain c.env s.database.store
    s.materialize c name q = match access.outcome with
      | .error e => (.error e, (s.reading access.scans).counting)
      | .ok tuples => (.ok (.scan (s.nextKey c name) q.schema),
          (s.reading access.scans).storing c name q.schema (.ofList tuples)) := by
  dsimp only
  rw [materialize, Database.evaluate, Database.drain]
  cases (q.drain c.env s.database.store).outcome with
  | error e => rfl
  | ok tuples =>
    have hscan : ∀ db : Database, Query.makeScan (db.replace (s.nextKey c name) q.schema
        (.ofList tuples)).store (s.nextKey c name) = .ok (.scan (s.nextKey c name) q.schema) :=
      fun db => Query.makeScan_eq_ok_iff.2 ⟨_, Dictionary.get?_insert_self .., rfl⟩
    dsimp only
    rw [hscan]
    rfl

/-- **An action makes one of the changes.** -/
theorem change_of_step {c : Settings} (h : c.mode = .eager) (step : Step) :
    Change c step.before (step.writes c) (step.after c).session := by
  obtain ⟨place, action, s⟩ := step
  simp only [Step.after, Step.writes, h]
  cases action with
  | test condition finished =>
    obtain ⟨n, hn⟩ := test_reads c condition finished s
    rw [Action.run, session_testOutcome, hn]
    exact .reads n
  | statement st =>
    cases st with
    | dump expr =>
      obtain ⟨n, hn⟩ := dump_reads .list c expr s
      rw [Action.run, Statement.run_dump, hn]
      exact .reads n
    | describe name =>
      rw [Action.run, Statement.run_describe, report_session]
      exact .reads 0
    | explain name =>
      rw [Action.run, Statement.run_explain, report_session]
      exact .reads 0
    | doWhile body condition => exact .reads 0
    | assign name expr =>
      rw [Action.run, Statement.run_assign, assign]
      dsimp only
      cases expr.analyze s.bindings with
      | error e => exact .reads 0
      | ok q =>
        dsimp only
        rw [h, materialize_eq]
        dsimp only [Plan.writes]
        -- the number is used up whether or not the query can be drained
        cases (q.drain c.env s.database.store).outcome with
        | error e => exact .counts _
        | ok tuples => exact .stores _ name q.schema _

/-! ## The invariant -/

/-- Each bound name has one stored relation, and there are no other stored relations. -/
structure OneRelationPerName (c : Settings) (s : Session) : Prop where
  /-- A name is bound to the scan of a key with the name in it and a number so far. -/
  bound : ∀ name q, s.bindings.get? name = some q →
    ∃ n schema, n ≤ s.materialized ∧ q = .scan (c.key name n) schema
  /-- Different names have different keys. -/
  apart : ∀ x y key schema schema', s.bindings.get? x = some (.scan key schema) →
    s.bindings.get? y = some (.scan key schema') → x = y
  /-- The store holds the keys that names are bound to, and no others. -/
  stored : ∀ key, s.database.store.contains key = true ↔
    ∃ name schema, s.bindings.get? name = some (.scan key schema)
  /-- A stored relation has the schema of its scan. -/
  schemas : ∀ name key schema, s.bindings.get? name = some (.scan key schema) →
    ∃ r, s.database.store.get? key = some r ∧ r.schema = schema
  /-- What was written was removed again or is bound. -/
  traffic : s.database.traffic.writes = s.database.traffic.removes + s.bindings.size

namespace OneRelationPerName

variable {c : Settings} {s : Session}

theorem fresh (c : Settings) : Session.fresh.OneRelationPerName c where
  bound _ _ h := nomatch h
  apart _ _ _ _ _ h := nomatch h
  stored _ := ⟨nofun, nofun⟩
  schemas _ _ _ h := nomatch h
  traffic := rfl

theorem key_of_bound (h : s.OneRelationPerName c) {name : String} {key : Key} {schema : Schema}
    (hname : s.bindings.get? name = some (.scan key schema)) :
    ∃ n, n ≤ s.materialized ∧ key = c.key name n := by
  obtain ⟨n, schema', hn, hq⟩ := h.bound name _ hname
  exact ⟨n, hn, (Query.scan.inj hq).1⟩

/-- `apart` and one direction of `stored` follow from the rest. -/
theorem of_found
    (bound : ∀ name q, s.bindings.get? name = some q →
      ∃ n schema, n ≤ s.materialized ∧ q = .scan (c.key name n) schema)
    (found : ∀ name key schema, s.bindings.get? name = some (.scan key schema) →
      ∃ r, s.database.store.get? key = some r ∧ r.schema = schema)
    (used : ∀ key r, s.database.store.get? key = some r →
      ∃ name schema, s.bindings.get? name = some (.scan key schema))
    (traffic : s.database.traffic.writes = s.database.traffic.removes + s.bindings.size) :
    s.OneRelationPerName c where
  bound := bound
  apart x y key schema schema' hx hy := by
    obtain ⟨m, _, -, hxq⟩ := bound x _ hx
    obtain ⟨n, _, -, hyq⟩ := bound y _ hy
    have hkey : c.key x m = c.key y n :=
      (Query.scan.inj hxq).1.symm.trans (Query.scan.inj hyq).1
    exact (Settings.key_inj hkey).1
  stored key := by
    constructor
    · intro hkey
      obtain ⟨r, hr⟩ := Option.isSome_iff_exists.1 hkey
      exact used key r hr
    · rintro ⟨name, schema, hname⟩
      obtain ⟨r, hr, -⟩ := found name key schema hname
      exact Dictionary.contains_of_get? hr
  schemas := found
  traffic := traffic

theorem reading (h : s.OneRelationPerName c) (n : Nat) : (s.reading n).OneRelationPerName c :=
  ⟨h.bound, h.apart, h.stored, h.schemas, h.traffic⟩

theorem counting (h : s.OneRelationPerName c) : s.counting.OneRelationPerName c where
  bound name q hname := by
    obtain ⟨n, schema, hn, hq⟩ := h.bound name q hname
    exact ⟨n, schema, Nat.le_succ_of_le hn, hq⟩
  apart := h.apart
  stored := h.stored
  schemas := h.schemas
  traffic := h.traffic

end OneRelationPerName

/-! ### Assignments -/

theorem bindings_release (c : Settings) (displaced : Option Query) (s : Session) :
    (s.release c displaced).bindings = s.bindings := by
  unfold release
  split
  · split <;> rfl
  · rfl

theorem materialized_release (c : Settings) (displaced : Option Query) (s : Session) :
    (s.release c displaced).materialized = s.materialized := by
  unfold release
  split
  · split <;> rfl
  · rfl

theorem bindings_bind (c : Settings) (name : String) (q : Query) (s : Session) :
    (s.bind c name q).bindings = s.bindings.insert name q := bindings_release ..

theorem materialized_bind (c : Settings) (name : String) (q : Query) (s : Session) :
    (s.bind c name q).materialized = s.materialized := materialized_release ..

/-- A name that was bound to no scan displaces nothing. -/
theorem database_bind_of_no_scan {c : Settings} {name : String} {s : Session}
    (h : ∀ key schema, s.bindings.get? name ≠ some (.scan key schema)) (q : Query) :
    (s.bind c name q).database = s.database := by
  rw [bind, release]
  exact h

/-- A relation of this run is removed when its name is bound again. -/
theorem database_bind_of_bound {c : Settings} {name : String} {s : Session} {n : Nat}
    {schema : Schema} (h : s.bindings.get? name = some (.scan (c.key name n) schema)) (q : Query) :
    (s.bind c name q).database = s.database.remove (c.key name n) := by
  unfold bind
  rw [h]
  dsimp only [release]
  rw [if_pos ⟨rfl, rfl⟩]

theorem materialized_assigned (c : Settings) (name : String) (schema : Schema) (bag : Bag)
    (s : Session) : (s.assigned c name schema bag).materialized = s.materialized + 1 :=
  materialized_bind ..

theorem get?_assigned_self (c : Settings) (name : String) (schema : Schema) (bag : Bag)
    (s : Session) : (s.assigned c name schema bag).bindings.get? name =
      some (.scan (s.nextKey c name) schema) := by
  rw [assigned, bindings_bind]
  exact Dictionary.get?_insert_self ..

theorem get?_assigned_of_ne {c : Settings} {x name : String} {schema : Schema} {bag : Bag}
    {s : Session} (h : x ≠ name) :
    (s.assigned c name schema bag).bindings.get? x = s.bindings.get? x := by
  rw [assigned, bindings_bind]
  exact Dictionary.get?_insert_of_ne h

theorem database_assigned_of_unbound {c : Settings} {name : String} {s : Session}
    (h : s.bindings.get? name = none) (schema : Schema) (bag : Bag) :
    (s.assigned c name schema bag).database =
      s.database.replace (s.nextKey c name) schema bag := by
  have hs : ∀ key old, (s.storing c name schema bag).bindings.get? name ≠
      some (.scan key old) := by
    intro key old hscan
    have : s.bindings.get? name = some (.scan key old) := hscan
    rw [h] at this
    cases this
  rw [assigned, database_bind_of_no_scan hs]
  rfl

theorem database_assigned_of_bound {c : Settings} {name : String} {s : Session} {n : Nat}
    {old : Schema} (h : s.bindings.get? name = some (.scan (c.key name n) old)) (schema : Schema)
    (bag : Bag) : (s.assigned c name schema bag).database =
      (s.database.replace (s.nextKey c name) schema bag).remove (c.key name n) := by
  have hs : (s.storing c name schema bag).bindings.get? name =
    some (.scan (c.key name n) old) := h
  rw [assigned, database_bind_of_bound hs]
  rfl

namespace OneRelationPerName

variable {c : Settings} {s : Session}

/-- What a name is bound to before an assignment. -/
theorem displaced (h : s.OneRelationPerName c) (name : String) :
    s.bindings.get? name = none ∨ ∃ n old, n ≤ s.materialized ∧
      s.bindings.get? name = some (.scan (c.key name n) old) := by
  cases hold : s.bindings.get? name with
  | none => exact Or.inl rfl
  | some q =>
    obtain ⟨n, old, hn, rfl⟩ := h.bound name q hold
    exact Or.inr ⟨n, old, hn, rfl⟩

/-- The new relation is there. -/
theorem store_assigned_self (h : s.OneRelationPerName c) (name : String) (schema : Schema)
    (bag : Bag) : (s.assigned c name schema bag).database.store.get? (s.nextKey c name) =
      some ⟨schema, bag⟩ := by
  rcases h.displaced name with hold | ⟨n, old, hn, hold⟩
  · rw [database_assigned_of_unbound hold]
    exact Dictionary.get?_insert_self ..
  · rw [database_assigned_of_bound hold]
    refine (Dictionary.get?_erase_of_ne (nextKey_ne c name name hn)).trans ?_
    exact Dictionary.get?_insert_self ..

/-- The displaced relation is gone. -/
theorem store_assigned_displaced (h : s.OneRelationPerName c) {name : String} {key : Key}
    {old : Schema} (hold : s.bindings.get? name = some (.scan key old)) (schema : Schema)
    (bag : Bag) : (s.assigned c name schema bag).database.store.get? key = none := by
  obtain ⟨n, -, rfl⟩ := h.key_of_bound hold
  rw [database_assigned_of_bound hold]
  exact Dictionary.get?_erase_self ..

/-- The other relations are as before. -/
theorem store_assigned_other (h : s.OneRelationPerName c) {name : String} {key : Key}
    (hnew : key ≠ s.nextKey c name) (hother : ∀ old, s.bindings.get? name ≠ some (.scan key old))
    (schema : Schema) (bag : Bag) :
    (s.assigned c name schema bag).database.store.get? key = s.database.store.get? key := by
  rcases h.displaced name with hold | ⟨n, old, hn, hold⟩
  · rw [database_assigned_of_unbound hold]
    exact Dictionary.get?_insert_of_ne hnew
  · have hold' : key ≠ c.key name n := fun e => hother old (e ▸ hold)
    rw [database_assigned_of_bound hold]
    refine (Dictionary.get?_erase_of_ne hold').trans ?_
    exact Dictionary.get?_insert_of_ne hnew

/-- The relation of another name is as before: it is neither the new one nor the displaced one. -/
theorem store_assigned_of_bound (h : s.OneRelationPerName c) {x name : String} (hx : x ≠ name)
    {key : Key} {old : Schema} (hbound : s.bindings.get? x = some (.scan key old))
    (schema : Schema) (bag : Bag) :
    (s.assigned c name schema bag).database.store.get? key = s.database.store.get? key := by
  obtain ⟨n, hn, hkey⟩ := h.key_of_bound hbound
  have hnew : key ≠ s.nextKey c name := hkey ▸ (nextKey_ne c name x hn).symm
  exact h.store_assigned_other hnew (fun _ hname => hx (h.apart _ _ _ _ _ hbound hname)) schema bag

theorem traffic_assigned (h : s.OneRelationPerName c) (name : String) (schema : Schema)
    (bag : Bag) :
    (s.assigned c name schema bag).database.traffic.writes =
      (s.assigned c name schema bag).database.traffic.removes +
        (s.assigned c name schema bag).bindings.size := by
  have hbindings : (s.assigned c name schema bag).bindings =
    s.bindings.insert name (.scan (s.nextKey c name) schema) := bindings_bind ..
  have htraffic := h.traffic
  rw [hbindings]
  rcases h.displaced name with hold | ⟨n, old, -, hold⟩
  · rw [database_assigned_of_unbound hold, Dictionary.size_insert_of_new hold]
    show s.database.traffic.writes + 1 = s.database.traffic.removes + (s.bindings.size + 1)
    omega
  · rw [database_assigned_of_bound hold, Dictionary.size_insert_of_get? hold]
    show s.database.traffic.writes + 1 = s.database.traffic.removes + 1 + s.bindings.size
    omega

/-- **An assignment keeps one relation for each name**, whatever the name was bound to before. -/
theorem assigned (h : s.OneRelationPerName c) (name : String) (schema : Schema) (bag : Bag) :
    (s.assigned c name schema bag).OneRelationPerName c := by
  refine of_found ?_ ?_ ?_ (h.traffic_assigned name schema bag)
  · intro x q hx
    rw [materialized_assigned]
    by_cases hname : x = name
    · subst hname
      rw [get?_assigned_self] at hx
      cases hx
      exact ⟨s.materialized + 1, schema, Nat.le_refl _, rfl⟩
    · rw [get?_assigned_of_ne hname] at hx
      obtain ⟨n, schema', hn, hq⟩ := h.bound x q hx
      exact ⟨n, schema', Nat.le_succ_of_le hn, hq⟩
  · intro x key schema' hx
    by_cases hname : x = name
    · subst hname
      rw [get?_assigned_self] at hx
      cases hx
      exact ⟨_, h.store_assigned_self x schema bag, rfl⟩
    · rw [get?_assigned_of_ne hname] at hx
      obtain ⟨r, hr, hschema⟩ := h.schemas x key schema' hx
      exact ⟨r, (h.store_assigned_of_bound hname hx schema bag).trans hr, hschema⟩
  · -- nothing is left over: what is stored is new, displaced, or bound as before
    intro key r hr
    by_cases hnew : key = s.nextKey c name
    · subst hnew
      exact ⟨name, schema, get?_assigned_self ..⟩
    by_cases hold : ∃ old, s.bindings.get? name = some (.scan key old)
    · obtain ⟨old, hold⟩ := hold
      rw [h.store_assigned_displaced hold] at hr
      cases hr
    · have hother : ∀ old, s.bindings.get? name ≠ some (.scan key old) :=
        fun old hname => hold ⟨old, hname⟩
      rw [h.store_assigned_other hnew hother] at hr
      obtain ⟨x, schema', hx⟩ := (h.stored key).1 (Dictionary.contains_of_get? hr)
      have hname : x ≠ name := fun e => hother schema' (e ▸ hx)
      exact ⟨x, schema', (get?_assigned_of_ne hname).trans hx⟩

/-- **No change breaks the invariant.** -/
theorem change {s' : Session} {keys : List Key} (h : s.OneRelationPerName c)
    (hchange : s.Change c keys s') : s'.OneRelationPerName c := by
  cases hchange with
  | reads n => exact h.reading n
  | counts n => exact (h.reading n).counting
  | stores n name schema bag => exact (h.reading n).assigned name schema bag

end OneRelationPerName

/-! ## Writes -/

namespace Change

variable {c : Settings} {s s' : Session} {keys : List Key}

theorem materialized_le (h : s.Change c keys s') : s.materialized ≤ s'.materialized := by
  cases h with
  | reads n => exact Nat.le_refl _
  | counts n => exact Nat.le_succ _
  | stores n name schema bag =>
    rw [materialized_assigned]
    exact Nat.le_succ _

/-- A change writes under one new number at most. -/
theorem keys_eq (h : s.Change c keys s') :
    keys = [] ∨ ∃ name, keys = [c.key name (s.materialized + 1)] ∧
      s'.materialized = s.materialized + 1 := by
  cases h with
  | reads n => exact Or.inl rfl
  | counts n => exact Or.inl rfl
  | stores n name schema bag => exact Or.inr ⟨name, rfl, materialized_assigned ..⟩

end Change

end Session

/-- The keys that a run writes are different, since their numbers increase. -/
theorem Chain.nodup_writes {c : Settings} {s s' : Session} {steps : List Step}
    (hmode : c.mode = .eager) (h : Chain c s steps s') :
    (steps.flatMap (Step.writes c)).Nodup ∧
      ∀ key ∈ steps.flatMap (Step.writes c), ∃ name n, s.materialized < n ∧ key = c.key name n := by
  induction h with
  | nil => exact ⟨List.nodup_nil, nofun⟩
  | @cons step rest _ _ ih =>
    have hchange := Session.change_of_step hmode step
    have hle := hchange.materialized_le
    obtain ⟨hnodup, hnumbers⟩ := ih
    have hlater : ∀ key ∈ rest.flatMap (Step.writes c),
        ∃ name n, step.before.materialized < n ∧ key = c.key name n := by
      intro key hkey
      obtain ⟨name, n, hn, hkey⟩ := hnumbers key hkey
      exact ⟨name, n, Nat.lt_of_le_of_lt hle hn, hkey⟩
    rw [List.flatMap_cons]
    rcases hchange.keys_eq with hnone | ⟨name, hone, hm⟩
    · rw [hnone]
      exact ⟨hnodup, hlater⟩
    · rw [hone, List.singleton_append]
      refine ⟨List.nodup_cons.2 ⟨fun hkey => ?_, hnodup⟩, List.forall_mem_cons.2 ⟨?_, hlater⟩⟩
      · -- a later key has a number above the one that was used up here
        obtain ⟨_, n, hn, hkey⟩ := hnumbers _ hkey
        have := (Settings.key_inj hkey).2
        omega
      · exact ⟨name, _, Nat.lt_succ_self _, rfl⟩

/-! ## Runs -/

/-- **An eager run keeps one stored relation for each bound name**, behind every action of it, at
its end, and however it ends.  It never writes under a key twice, and its writes are counted. -/
theorem Program.one_relation_per_name (c : Settings) (h : c.mode = .eager) (passes : Nat)
    (program : Program) :
    let steps := program.trace c passes .fresh
    let final := (program.run c passes .fresh).session
    (∀ step ∈ steps, (step.after c).session.OneRelationPerName c) ∧
      final.OneRelationPerName c ∧
      (∀ step ∈ steps, step.Logged c) ∧
      (steps.flatMap (Step.writes c)).Nodup ∧
      final.database.traffic.writes = (steps.flatMap (Step.writes c)).length := by
  have hchain := (program.covers_trace c passes .fresh).chain
  have hstep : ∀ step : Step, step.before.OneRelationPerName c →
      (step.after c).session.OneRelationPerName c :=
    fun step hbefore => hbefore.change (Session.change_of_step h step)
  obtain ⟨hsteps, hfinal⟩ := hchain.invariant hstep (.fresh c)
  refine ⟨hsteps, hfinal, fun step _ => step.logged c, (hchain.nodup_writes h).1, ?_⟩
  rw [hchain.writes_eq]
  exact Nat.zero_add _

/-! ### A name that is bound to a query on itself -/

/-- Eager mode without files. -/
def Settings.eager : Settings := ⟨.eager, "owner", "run", none, fun _ => .refused "", none⟩

/-- A name with a mark, bound to a row and then to a query on itself, and a failure. -/
def Program.selfAssignment : Program :=
  [.assign "x#1" (.table [⟨[.int 1]⟩] [⟨"a", .int⟩]),
    .assign "x#1" (.distinct (.reference "x#1")),
    .dump (.reference "y")]

theorem Program.one_relation_per_name_selfAssignment :
    let steps := selfAssignment.trace .eager 1 .fresh
    let final := (selfAssignment.run .eager 1 .fresh).session
    Settings.eager.mode = .eager ∧
      (∀ step ∈ steps, (step.after .eager).session.OneRelationPerName .eager) ∧
      final.OneRelationPerName .eager ∧
      steps.flatMap (Step.writes .eager) =
        [Settings.eager.key "x#1" 1, Settings.eager.key "x#1" 2] ∧
      final.database.store.keys = [Settings.eager.key "x#1" 2] ∧
      final.database.traffic = ⟨1, 2, 1⟩ := by
  obtain ⟨hsteps, hfinal, -, -, -⟩ := one_relation_per_name .eager rfl 1 selfAssignment
  refine ⟨rfl, hsteps, hfinal, ?_, ?_, ?_⟩
  · decide +kernel
  · decide +kernel
  · decide +kernel

end BagQuery
