import BagQuery.Proofs.QueryFaults

/-!
# What analysis and evaluation look at

Analysis looks at the bindings of the names that an expression has in it, and at no others
(`Expr.analyze_congr`).  Opening a query looks at the stored relations among its leaves, and at no
others (`Query.openStream_congr`), so a query without such leaves reads nothing at all
(`Query.ScanFree.scans_drain`).
-/

namespace BagQuery

open Attempt

/-! ## Stored relations -/

namespace Query

variable {env : Environment} {store store' : Store} {q : Query}

theorem readRelation_congr {key : Key} (h : store'.get? key = store.get? key) (schema : Schema) :
    readRelation store' key schema = readRelation store key schema := by
  unfold readRelation Store.relation
  rw [h]

/-- **Other relations do not matter to a query.** -/
theorem openStream_congr
    (h : ∀ key schema, scan key schema ∈ q.leaves → store'.get? key = store.get? key) :
    q.openStream env store' = q.openStream env store := by
  induction q with
  | load path schema => rfl
  | table rows schema => rfl
  | scan key schema => exact readRelation_congr (h key schema List.mem_cons_self) schema
  | join left right on schema ihl ihr =>
    have hl := ihl fun key schema hleaf => h key schema (List.mem_append_left _ hleaf)
    have hr := ihr fun key schema hleaf => h key schema (List.mem_append_right _ hleaf)
    rw [openStream, openStream, hl, hr]
  | setOp op left right ihl ihr =>
    have hl := ihl fun key schema hleaf => h key schema (List.mem_append_left _ hleaf)
    have hr := ihr fun key schema hleaf => h key schema (List.mem_append_right _ hleaf)
    cases op with
    | union | intersect | diff => rw [openStream, openStream, hl, hr]
  | foreach input columns schema ih => rw [openStream, openStream, ih h]
  | distinct input ih => rw [openStream, openStream, ih h]
  | limit input count ih => rw [openStream, openStream, ih h]

theorem drain_congr
    (h : ∀ key schema, scan key schema ∈ q.leaves → store'.get? key = store.get? key) :
    q.drain env store' = q.drain env store := by
  rw [drain, drain, openStream_congr h]

/-- No part of the query is a stored relation. -/
def ScanFree (q : Query) : Prop := ∀ leaf ∈ q.leaves, ∀ key schema, leaf ≠ scan key schema

end Query

/-- Nothing is read where neither part reads anything. -/
theorem Access.scans_bind {α β : Type} {x : Access α} {f : α → Access β} (hx : x.scans = 0)
    (hf : ∀ a, (f a).scans = 0) : (x >>= f).scans = 0 := by
  cases h : x.outcome with
  | error e => simp [bind, h, hx]
  | ok a => simp [bind, h, hx, hf]

namespace Query.ScanFree

variable {env : Environment} {store : Store} {q left right : Query}

theorem ne_scan (h : q.ScanFree) (key : Key) (schema : Schema) : q ≠ scan key schema := by
  rintro rfl
  exact h _ List.mem_cons_self key schema rfl

theorem of_append (h : ∀ leaf ∈ left.leaves ++ right.leaves, ∀ key schema, leaf ≠ scan key schema) :
    left.ScanFree ∧ right.ScanFree :=
  List.forall_mem_append.1 h

/-- The store does not matter. -/
theorem drain_eq (h : q.ScanFree) (env : Environment) (store store' : Store) :
    q.drain env store' = q.drain env store :=
  drain_congr fun key schema hleaf => absurd rfl (h _ hleaf key schema)

theorem scans_openStream (h : q.ScanFree) : (q.openStream env store).scans = 0 := by
  induction q with
  | load path schema => rfl
  | table rows schema => rfl
  | scan key schema => exact absurd rfl (h.ne_scan key schema)
  | join left right on schema ihl ihr =>
    obtain ⟨hl, hr⟩ := of_append h
    exact Access.scans_bind (ihl hl) fun _ => Access.scans_bind (ihr hr) fun _ =>
      Access.scans_bind rfl fun _ => rfl
  | setOp op left right ihl ihr =>
    obtain ⟨hl, hr⟩ := of_append h
    cases op with
    | union => exact Access.scans_bind (ihl hl) fun _ => Access.scans_bind (ihr hr) fun _ => rfl
    | intersect | diff =>
      exact Access.scans_bind (ihl hl) fun _ => Access.scans_bind rfl fun _ =>
        Access.scans_bind (ihr hr) fun _ => Access.scans_bind rfl fun _ => rfl
  | foreach input columns schema ih => exact Access.scans_bind (ih h) fun _ => rfl
  | distinct input ih => exact Access.scans_bind (ih h) fun _ => rfl
  | limit input count ih => exact Access.scans_bind (ih h) fun _ => rfl

/-- **A query without stored relations reads nothing.** -/
theorem scans_drain (h : q.ScanFree) : (q.drain env store).scans = 0 :=
  Access.scans_bind h.scans_openStream fun _ => rfl

end Query.ScanFree

/-! ## Names -/

namespace Expr

/-- The names that are looked up for an expression. -/
def names : Expr → List String
  | load .. | table .. => []
  | reference name | limit name _ | foreach name .. => [name]
  | distinct input => input.names
  | setOp _ left right => [left, right]
  | join left right => [left.name, right.name]

variable {b b' : Bindings} {x : Expr}

/-- **Other names do not matter to an expression.** -/
theorem analyze_congr (h : ∀ name ∈ x.names, b'.get? name = b.get? name) :
    x.analyze b' = x.analyze b := by
  have hresolve {name : String} (hname : name ∈ x.names) : b'.resolve name = b.resolve name := by
    unfold Bindings.resolve
    rw [h name hname]
  induction x with
  | load path columns => rfl
  | table rows columns => rfl
  | reference name => exact hresolve List.mem_cons_self
  | distinct input ih => rw [analyze, analyze, ih h hresolve]
  | limit name count => rw [analyze, analyze, hresolve List.mem_cons_self]
  | setOp op left right =>
    rw [analyze, analyze, hresolve List.mem_cons_self,
      hresolve (List.mem_cons_of_mem _ List.mem_cons_self)]
  | foreach name columns rename =>
    rw [analyze, analyze, analyzeForeach, analyzeForeach, hresolve List.mem_cons_self]
  | join left right =>
    rw [analyze, analyze, analyzeJoin, analyzeJoin, hresolve List.mem_cons_self,
      hresolve (List.mem_cons_of_mem _ List.mem_cons_self)]

/-- Analysis makes no stored relations. -/
theorem scanFree_of_analyze (hb : ∀ name q, b.get? name = some q → q.ScanFree) {q : Query}
    (h : x.analyze b = .ok q) : q.ScanFree :=
  leaves_of_analyze hb (fun _ _ => nofun) (fun _ _ _ => nofun) h

end Expr

end BagQuery
