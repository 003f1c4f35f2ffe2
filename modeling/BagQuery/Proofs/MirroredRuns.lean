import BagQuery.Proofs.AnalysisEquivalence
import BagQuery.Proofs.RunFaults
import BagQuery.Proofs.Simulation

/-!
# Eager runs under other keys

Two eager runs of one program may store the same tuples under different keys, for different owners
and runs or under different numbers.  `Query.Mirrored` relates two scans of one relation, and
`Session.Mirrors` the sessions that bind every name to such scans.  Queries over such scans open
the same streams (`Expr.kept_openAlike`), so what is stored next is again the same, and the runs go
alike (`Session.Mirrors.simulation`).

The relation `N` says which numbers may stand in the two keys of a name.
-/

namespace BagQuery

open Attempt

namespace Query

/-- Scans of one relation, which is stored for one name in both stores. -/
inductive Mirrored (c c' : Settings) (N : Nat → Nat → Prop) (store store' : Store) :
    Query → Query → Prop
  | scan {name : String} {m n : Nat} {r : Relation} (hnumbers : N m n)
      (h : store.get? (c.key name m) = some r) (h' : store'.get? (c'.key name n) = some r) :
      Mirrored c c' N store store' (.scan (c.key name m) r.schema) (.scan (c'.key name n) r.schema)

/-- The queries have one schema and open the same stream, with as many reads. -/
structure OpenAlike (env : Environment) (store store' : Store) (q q' : Query) : Prop where
  schema : q.schema = q'.schema
  stream : q'.openStream env store' = q.openStream env store

variable {c c' : Settings} {N : Nat → Nat → Prop} {env : Environment} {store store' : Store}
  {q q' : Query}

theorem Mirrored.openAlike (env : Environment) (h : Mirrored c c' N store store' q q') :
    OpenAlike env store store' q q' := by
  obtain ⟨-, h, h'⟩ := h
  refine ⟨rfl, ?_⟩
  rw [openStream, openStream, readRelation, readRelation, Store.relation, Store.relation, h, h']

theorem OpenAlike.drain (h : OpenAlike env store store' q q') :
    q'.drain env store' = q.drain env store := by
  rw [Query.drain, Query.drain, h.stream]

end Query

/-- Operators take scans of one relation to queries that open the same stream. -/
theorem Expr.kept_openAlike (c c' : Settings) (N : Nat → Nat → Prop) (env : Environment)
    (store store' : Store) :
    Kept (Query.Mirrored c c' N store store') fun _ => Query.OpenAlike env store store' where
  schema h := (h.openAlike env).schema
  load _ := ⟨rfl, rfl⟩
  table _ := ⟨rfl, rfl⟩
  reference h := h.openAlike env
  distinct h := ⟨h.schema, by rw [Query.openStream, Query.openStream, h.stream]⟩
  limit h := by
    have halike := h.openAlike env
    exact ⟨halike.schema, by rw [Query.openStream, Query.openStream, halike.stream]⟩
  setOp {op} _ _ _ _ _ _ hl hr _ := by
    have hl := hl.openAlike env
    have hr := hr.openAlike env
    refine ⟨hl.schema, ?_⟩
    cases op with
    | union | intersect | diff =>
      rw [Query.openStream, Query.openStream, hl.stream, hr.stream]
  foreach h _ := ⟨rfl, by rw [Query.openStream, Query.openStream, (h.openAlike env).stream]⟩
  join hl hr _ := by
    have hl := hl.openAlike env
    have hr := hr.openAlike env
    exact ⟨rfl, by rw [Query.openStream, Query.openStream, hl.stream, hr.stream]⟩

/-- The same is put out, up to the keys under which a name's relation is stored. -/
inductive Output.Mirrored (c c' : Settings) (N : Nat → Nat → Prop) : Output → Output → Prop
  | dump (schema : Schema) (ts : List Tuple) : Mirrored c c' N (.dump schema ts) (.dump schema ts)
  | describe (name : String) (schema : Schema) :
      Mirrored c c' N (.describe name schema) (.describe name schema)
  | explain (name : String) (schema : Schema) {m n : Nat} (hnumbers : N m n) :
      Mirrored c c' N (.explain name (.scan (c.key name m) schema))
        (.explain name (.scan (c'.key name n) schema))

namespace Session

/-- Both sessions bind the same names, to scans of the same relations. -/
structure Mirrors (c c' : Settings) (N : Nat → Nat → Prop) (s s' : Session) : Prop where
  stored : s.OneRelationPerName c
  stored' : s'.OneRelationPerName c'
  bindings :
    s.bindings.Related (Query.Mirrored c c' N s.database.store s'.database.store) s'.bindings
  materialized : s'.materialized = s.materialized

namespace Mirrors

variable {c c' : Settings} {N : Nat → Nat → Prop} {s s' : Session}

theorem fresh (c c' : Settings) (N : Nat → Nat → Prop) : Mirrors c c' N .fresh .fresh :=
  ⟨.fresh c, .fresh c', fun _ => .none, rfl⟩

theorem reading (h : Mirrors c c' N s s') (n n' : Nat) :
    Mirrors c c' N (s.reading n) (s'.reading n') :=
  ⟨h.stored.reading n, h.stored'.reading n', h.bindings, h.materialized⟩

theorem counting (h : Mirrors c c' N s s') : Mirrors c c' N s.counting s'.counting :=
  ⟨h.stored.counting, h.stored'.counting, h.bindings, congrArg Nat.succ h.materialized⟩

/-- **Storing the same tuples for a name in both sessions** keeps them so: its relations are the
new ones, and those of the other names stay. -/
theorem assigned (h : Mirrors c c' N s s') (hN : ∀ n, N n n) (name : String) (schema : Schema)
    (bag : Bag) :
    Mirrors c c' N (s.assigned c name schema bag) (s'.assigned c' name schema bag) := by
  refine ⟨h.stored.assigned name schema bag, h.stored'.assigned name schema bag, fun x => ?_, ?_⟩
  · by_cases hx : x = name
    · subst hx
      rw [get?_assigned_self, get?_assigned_self]
      refine .some (.scan (r := ⟨schema, bag⟩) ?_ (h.stored.store_assigned_self x schema bag)
        (h.stored'.store_assigned_self x schema bag))
      rw [h.materialized]
      exact hN _
    · rw [get?_assigned_of_ne hx, get?_assigned_of_ne hx]
      rcases h.bindings.cases x with ⟨hb, hb'⟩ | ⟨q, q', hb, hb', hnumbers, hr, hr'⟩
      · rw [hb, hb']
        exact .none
      · rw [hb, hb']
        have hkept := h.stored.store_assigned_of_bound hx hb schema bag
        have hkept' := h.stored'.store_assigned_of_bound hx hb' schema bag
        exact .some (.scan hnumbers (hkept.trans hr) (hkept'.trans hr'))
  · rw [materialized_assigned, materialized_assigned, h.materialized]

/-- An expression is analyzed alike, and its queries are drained alike. -/
theorem analyze (h : Mirrors c c' N s s') (henv : c.env = c'.env) (x : Expr) :
    Alike (fun q q' => q.schema = q'.schema ∧
        q'.drain c'.env s'.database.store = q.drain c.env s.database.store)
      (x.analyze s.bindings) (x.analyze s'.bindings) := by
  have halike := (Expr.kept_openAlike c c' N c.env _ _).alike_analyze h.bindings x
  refine halike.mono fun q q' hq => ⟨hq.schema, ?_⟩
  rw [← henv]
  exact hq.drain

/-- A name is bound to mirrored scans under keys of its own. -/
theorem explain (h : Mirrors c c' N s s') {name : String} {q q' : Query}
    (hb : s.bindings.get? name = some q) (hb' : s'.bindings.get? name = some q') :
    (Output.explain name q).Mirrored c c' N (.explain name q') := by
  rcases h.bindings.cases name with ⟨hnone, -⟩ | ⟨_, _, hq, hq', hnumbers, hr, hr'⟩
  · rw [hb] at hnone
    cases hnone
  · rw [hb] at hq
    cases hq
    rw [hb'] at hq'
    cases hq'
    -- the name in the key of a bound scan is the bound name
    obtain ⟨_, -, hkey⟩ := h.stored.key_of_bound hb
    obtain ⟨rfl, -⟩ := Settings.key_inj hkey
    exact .explain _ _ hnumbers

/-- **Eager runs go alike under other keys.** -/
theorem simulation (hmode : c.mode = .eager) (hmode' : c'.mode = .eager) (henv : c.env = c'.env)
    (hlimit : c.maxIterations = c'.maxIterations) (N : Nat → Nat → Prop) (hN : ∀ n, N n n) :
    Simulation c c' (Mirrors c c' N) (Output.Mirrored c c' N) where
  maxIterations := hlimit
  dumped := .dump
  described := .describe
  resolve h name := by
    unfold Bindings.resolve
    rcases h.bindings.cases name with ⟨hb, hb'⟩ | ⟨q, q', hb, hb', hq⟩
    · rw [hb, hb']
      exact rfl
    · rw [hb, hb']
      exact ⟨(hq.openAlike c.env).schema, h.explain hb hb'⟩
  tuplesOf {s s'} h x := by
    obtain ⟨n, hn⟩ := tuplesOf_reads c x s
    obtain ⟨n', hn'⟩ := tuplesOf_reads c' x s'
    rw [hn, hn', tuplesOf_outcome, tuplesOf_outcome]
    refine ⟨(h.analyze henv x).bind fun q q' ⟨hschema, hdrain⟩ => ?_, h.reading n n'⟩
    rw [hdrain]
    cases (q.drain c.env s.database.store).outcome with
    | error e => exact rfl
    | ok ts => exact ⟨hschema, rfl⟩
  assign {s s'} h name x := by
    rw [assign_eager hmode, assign_eager hmode']
    rcases (h.analyze henv x).cases with ⟨e, hx, hx'⟩ | ⟨q, q', hx, hx', hschema, hdrain⟩
    · rw [hx, hx']
      exact .failed h e
    · rw [hx, hx']
      dsimp only
      rw [hdrain, ← hschema]
      have hread := h.reading (q.drain c.env s.database.store).scans
        (q.drain c.env s.database.store).scans
      cases (q.drain c.env s.database.store).outcome with
      | error e => exact .failed hread.counting e
      | ok ts => exact .completed (hread.assigned hN name q.schema (.ofList ts))

end Mirrors

end Session

end BagQuery
