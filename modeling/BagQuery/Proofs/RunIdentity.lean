import BagQuery.Proofs.LazyRuns
import BagQuery.Proofs.MirroredRuns

/-!
# The identity of a run

The owner and the run stand in the keys of stored relations, and nowhere else in what a run leaves.
Two runs of one program that differ in these end alike, with the same names, schemas and outputs,
and with stores that differ in the keys alone (`Program.same_under_identity`).

The lazy runs store nothing and bind no scans, so they are the same (`Session.Aside`).  The eager
ones bind every name to a scan of the same relation under a key with the same number
(`Session.Mirrors` for equal numbers).  The key shows in the explanation of such a scan, where
`Explanation.inRun` exchanges it.
-/

namespace BagQuery

/-! ## Keys -/

/-- The key of the same relation in the run of these settings. -/
def Key.inRun (c : Settings) (key : Key) : Key := ⟨c.owner, c.runId, key.relation⟩

/-- Keys of one run are in the same order in another. -/
theorem Key.compare_inRun (c : Settings) {j k : Key} (howner : j.owner = k.owner)
    (hprogram : j.program = k.program) : compare (j.inRun c) (k.inRun c) = compare j k := by
  rw [compare_eq, compare_eq, parts, parts, parts, parts, howner, hprogram]
  simp only [inRun, List.compare_cons_cons, Std.ReflOrd.compare_self, Ordering.then]

/-- What the text of a key of this run begins with. -/
def Settings.keyStart (c : Settings) : String := c.owner ++ ":" ++ c.runId ++ ":"

/-- The text of a key, with the owner and the run of `c'` in place of those of `c`. -/
def Settings.exchange (c c' : Settings) (text : String) : String :=
  c'.keyStart ++ String.ofList (text.toList.drop c.keyStart.length)

theorem Settings.exchange_key (c c' : Settings) (name : String) (n : Nat) :
    c.exchange c' (c.key name n).render = (c'.key name n).render := by
  have hrender (d : Settings) : (d.key name n).render =
    d.keyStart ++ (d.key name n).relation := rfl
  rw [hrender, hrender, exchange, String.toList_append, ← String.length_toList, List.drop_left,
    String.ofList_toList]
  rfl

/-! ## Explanations -/

namespace Explanation

/-- A property of an operator, with another owner and run if it is the key of a scan. -/
def propInRun (c c' : Settings) (op : String) (prop : String × String) : String × String :=
  if op = "SCAN" ∧ prop.1 = "key" then (prop.1, c.exchange c' prop.2) else prop

mutual

/-- The explanation with the owner and the run of `c'` in the keys of scans, in place of those of
`c`. -/
def inRun (c c' : Settings) : Explanation → Explanation
  | node op props inputs => node op (props.map (propInRun c c' op)) (allInRun c c' inputs)

/-- The explanations with another owner and run in the keys of scans. -/
def allInRun (c c' : Settings) : List Explanation → List Explanation
  | [] => []
  | e :: es => inRun c c' e :: allInRun c c' es

end

theorem map_propInRun_of_ne {c c' : Settings} {op : String} (h : op ≠ "SCAN")
    (props : List (String × String)) : props.map (propInRun c c' op) = props := by
  refine List.map_id'' (fun prop => ?_) props
  exact if_neg fun hscan => h hscan.1

end Explanation

namespace Query

variable {c c' : Settings}

theorem inRun_explain_scan (c c' : Settings) (name : String) (n : Nat) (schema : Schema) :
    (scan (c.key name n) schema).explain.inRun c c' = (scan (c'.key name n) schema).explain := by
  show Explanation.node "SCAN" [("key", c.exchange c' (c.key name n).render),
    ("schema", schema.render)] [] = _
  rw [Settings.exchange_key]
  rfl

theorem tag_ne_scan {q : Query} (h : ∀ key schema, q ≠ scan key schema) : q.tag ≠ "SCAN" := by
  cases q with
  | scan key schema => exact absurd rfl (h key schema)
  | setOp op => cases op <;> simp [tag, SetOp.tag]
  | load | table | join | foreach | distinct | limit => simp [tag]

namespace ScanFree

variable {q : Query}

theorem inRun_node (h : q.ScanFree) {inputs : List Explanation}
    (hinputs : Explanation.allInRun c c' inputs = inputs) :
    (Explanation.node q.tag q.props inputs).inRun c c' = .node q.tag q.props inputs := by
  rw [Explanation.inRun, Explanation.map_propInRun_of_ne (tag_ne_scan h.ne_scan), hinputs]

/-- Without scans there is nothing to exchange. -/
theorem inRun_explain (h : q.ScanFree) : q.explain.inRun c c' = q.explain := by
  induction q with
  | load path schema => exact h.inRun_node rfl
  | table rows schema => exact h.inRun_node rfl
  | scan key schema => exact absurd rfl (h.ne_scan key schema)
  | join left right on schema ihl ihr =>
    obtain ⟨hl, hr⟩ := of_append h
    exact h.inRun_node (by simp [Explanation.allInRun, ihl hl, ihr hr])
  | setOp op left right ihl ihr =>
    obtain ⟨hl, hr⟩ := of_append h
    exact h.inRun_node (by simp [Explanation.allInRun, ihl hl, ihr hr])
  | foreach input columns schema ih => exact h.inRun_node (by simp [Explanation.allInRun, ih h])
  | distinct input ih => exact h.inRun_node (by simp [Explanation.allInRun, ih h])
  | limit input count ih => exact h.inRun_node (by simp [Explanation.allInRun, ih h])

end ScanFree

end Query

/-- The same is put out, up to the owner and the run in the keys of an explained plan. -/
inductive Output.SameInRun (c c' : Settings) : Output → Output → Prop
  | dump (schema : Schema) (ts : List Tuple) : SameInRun c c' (.dump schema ts) (.dump schema ts)
  | describe (name : String) (schema : Schema) :
      SameInRun c c' (.describe name schema) (.describe name schema)
  | explain (name : String) {q q' : Query} (h : q'.explain = q.explain.inRun c c') :
      SameInRun c c' (.explain name q) (.explain name q')

namespace Output

variable {c c' : Settings} {out out' : Output}

theorem ScanFree.sameInRun (h : out.ScanFree) : SameInRun c c' out out := by
  cases out with
  | dump schema ts => exact .dump schema ts
  | describe name schema => exact .describe name schema
  | explain name q => exact .explain name (Query.ScanFree.inRun_explain h).symm

theorem Mirrored.sameInRun (h : Mirrored c c' Eq out out') : SameInRun c c' out out' := by
  cases h with
  | dump schema ts => exact .dump schema ts
  | describe name schema => exact .describe name schema
  | explain name schema hnumbers =>
    subst hnumbers
    exact .explain name (Query.inRun_explain_scan ..).symm

end Output

/-! ## Stores -/

namespace Session

variable {c c' : Settings} {s s' : Session}

theorem OneRelationPerName.exists_key (h : s.OneRelationPerName c) {key : Key}
    (hkey : s.database.store.contains key = true) : ∃ name n, key = c.key name n := by
  obtain ⟨name, schema, hname⟩ := (h.stored key).1 hkey
  obtain ⟨n, -, hkey⟩ := h.key_of_bound hname
  exact ⟨name, n, hkey⟩

namespace Mirrors

theorem symm (h : Mirrors c c' Eq s s') : Mirrors c' c Eq s' s where
  stored := h.stored'
  stored' := h.stored
  bindings name := by
    rcases h.bindings.cases name with ⟨hb, hb'⟩ | ⟨q, q', hb, hb', rfl, hr, hr'⟩
    · rw [hb, hb']
      exact .none
    · rw [hb, hb']
      exact .some (.scan rfl hr' hr)
  materialized := h.materialized.symm

theorem get?_key_of_some (h : Mirrors c c' Eq s s') {name : String} {n : Nat} {r : Relation}
    (hr : s.database.store.get? (c.key name n) = some r) :
    s'.database.store.get? (c'.key name n) = some r := by
  obtain ⟨x, schema, hx⟩ := (h.stored.stored _).1 (Dictionary.contains_of_get? hr)
  rcases h.bindings.cases x with ⟨hb, -⟩ | ⟨q, q', hb, -, hq⟩
  · rw [hx] at hb
    cases hb
  · rw [hx] at hb
    cases hb
    generalize hkey : c.key name n = key at hr hq
    cases hq with
    | scan hnumbers h₁ h₂ =>
      subst hnumbers
      obtain ⟨rfl, rfl⟩ := Settings.key_inj hkey
      rw [h₁] at hr
      exact h₂.trans hr

/-- The same relations are stored under corresponding keys. -/
theorem get?_key (h : Mirrors c c' Eq s s') (name : String) (n : Nat) :
    s'.database.store.get? (c'.key name n) = s.database.store.get? (c.key name n) :=
  Option.ext fun _ => ⟨h.symm.get?_key_of_some, h.get?_key_of_some⟩

/-- **The stores differ in the owner and the run of their keys alone.** -/
theorem entries (h : Mirrors c c' Eq s s') :
    s'.database.store.entries = s.database.store.entries.map fun e => (e.1.inRun c', e.2) := by
  have hkeys : ∀ e ∈ s.database.store.entries, ∃ name n, e.1 = c.key name n := fun e he =>
    h.stored.exists_key (Dictionary.mem_keys.1 (List.mem_map_of_mem he))
  have hcompare {j k : Key} (hj : ∃ name n, j = c.key name n) (hk : ∃ name n, k = c.key name n) :
      compare (j.inRun c') (k.inRun c') = compare j k := by
    obtain ⟨_, _, rfl⟩ := hj
    obtain ⟨_, _, rfl⟩ := hk
    exact Key.compare_inRun c' rfl rfl
  refine Entries.eq_of_get?_eq s'.database.store.sorted
    (Entries.sorted_map_keys (fun e he e' he' => hcompare (hkeys e he) (hkeys e' he'))
      s.database.store.sorted) fun key => ?_
  by_cases hkey : ∃ name n, key = c'.key name n
  · obtain ⟨name, n, rfl⟩ := hkey
    refine (h.get?_key name n).trans (Eq.symm ?_)
    exact Entries.get?_map_keys (k := c.key name n)
      fun e he => hcompare ⟨name, n, rfl⟩ (hkeys e he)
  · -- a key of neither store
    have hleft : Entries.get? key s'.database.store.entries = none := by
      refine Option.eq_none_iff_forall_ne_some.2 fun r hr => hkey ?_
      exact h.stored'.exists_key (Dictionary.contains_of_get? hr)
    have hright : Entries.get? key (s.database.store.entries.map fun e => (e.1.inRun c', e.2)) =
        none := by
      refine Option.eq_none_iff_forall_ne_some.2 fun r hr => hkey ?_
      have hmem := Entries.mem_keys.2 (Option.isSome_of_eq_some hr)
      rw [List.map_map] at hmem
      obtain ⟨e, he, rfl⟩ := List.mem_map.1 hmem
      obtain ⟨name, n, hname⟩ := hkeys e he
      exact ⟨name, n, congrArg (Key.inRun c') hname⟩
    rw [hleft, hright]

end Mirrors

end Session

/-! ## Runs -/

/-- **The owner and the run leave no trace but in keys.**  From fresh sessions, and under settings
that differ in these alone, a program ends in the same way, with the same bound names and schemas.
What it puts out is the same, up to the keys in the explanations of scans, and what it leaves stored
is the same, up to the owner and the run in every key. -/
theorem Program.same_under_identity (c : Settings) (owner runId : String) (passes : Nat)
    (program : Program) :
    let c' := { c with owner, runId }
    let o := program.run c passes .fresh
    let o' := program.run c' passes .fresh
    o'.ending = o.ending ∧
      (∀ name, (o'.session.bindings.get? name).map Query.schema =
        (o.session.bindings.get? name).map Query.schema) ∧
      List.Forall₂ (Output.SameInRun c c') o.outputs o'.outputs ∧
      o'.session.database.store.entries =
        o.session.database.store.entries.map fun e => (e.1.inRun c', e.2) := by
  intro c' o o'
  cases hmode : c.mode with
  | lazy =>
    have hmode' : c'.mode = .lazy := hmode
    have hsim := Session.Aside.simulation hmode hmode' rfl rfl .fresh .fresh
    have hrelated : Outcome.Related (Session.Aside .fresh .fresh) _ o o' :=
      hsim.run passes program (.unbound .fresh .fresh)
    refine ⟨hrelated.ending.symm, fun name => ?_, ?_, ?_⟩
    · rw [hrelated.sessions.bindings]
    · refine hrelated.outputs.imp fun out out' => ?_
      rintro ⟨rfl, hfree⟩
      exact hfree.sameInRun
    · rw [hrelated.sessions.database, hrelated.sessions.database']
      rfl
  | eager =>
    have hmode' : c'.mode = .eager := hmode
    have hsim := Session.Mirrors.simulation hmode hmode' rfl rfl Eq fun _ => rfl
    have hrelated := hsim.run passes program (.fresh c c' Eq)
    refine ⟨hrelated.ending.symm, fun name => ?_, ?_, hrelated.sessions.entries⟩
    · rcases hrelated.sessions.bindings.cases name with ⟨hb, hb'⟩ | ⟨q, q', hb, hb', -, -, -⟩
      · rw [hb, hb']
      · rw [hb, hb']
        rfl
    · exact hrelated.outputs.imp fun _ _ hout => hout.sameInRun

end BagQuery
