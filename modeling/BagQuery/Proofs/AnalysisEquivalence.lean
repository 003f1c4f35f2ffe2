import BagQuery.Analysis
import BagQuery.Proofs.Equivalence

/-!
# Analysis under equivalent bindings

Analysis looks at the schemas of bound queries and at nothing else of them.  So under bindings to
queries of the same schemas it ends alike, with the same error or with two queries; and what
operators take from bound queries to built ones, analysis takes from bindings to its queries
(`Expr.Kept`, `Expr.Kept.alike_analyze`).

Equivalent queries are one case (`Expr.alike_analyze`).  The exception there is a file that cannot
be read to its end, which yields nothing under either bindings.
-/

namespace BagQuery

open Attempt

namespace Query

variable {left left' right right' q q' : Query}

theorem alike_makeJoin (hl : left.schema = left'.schema) (hr : right.schema = right'.schema)
    (on : List (Nat × Nat)) (leftLabel rightLabel : String) :
    Alike (fun q q' => ∃ schema : Schema,
        schema.types = left.schema.types ++ right.schema.types ∧
          q = join left right on schema ∧ q' = join left' right' on schema)
      (makeJoin left right on leftLabel rightLabel)
      (makeJoin left' right' on leftLabel rightLabel) := by
  unfold makeJoin
  rw [← hl, ← hr]
  apply (Alike.self _).bind
  rintro schema _ ⟨hschema, rfl⟩
  apply (Alike.self _).bind
  intro _ _ _
  exact ⟨schema, types_of_join hschema, rfl, rfl⟩

theorem alike_makeForeach (h : q.schema = q'.schema) (indexes : List Nat)
    (rename : Option Schema) :
    Alike (fun r r' => ∃ schema : Schema, typesAt q.schema.types indexes = some schema.types ∧
        r = foreach q indexes schema ∧ r' = foreach q' indexes schema)
      (makeForeach q indexes rename) (makeForeach q' indexes rename) := by
  unfold makeForeach
  rw [← h]
  apply (Alike.self _).bind
  rintro columns _ ⟨hcolumns, rfl⟩
  have htypes := typesAt_of_columnAt hcolumns
  cases rename with
  | none =>
    apply (Alike.self _).bind
    rintro schema _ ⟨hschema, rfl⟩
    refine ⟨schema, ?_, rfl, rfl⟩
    rw [htypes, Schema.types, Schema.ofColumns_eq_ok_iff.1 hschema]
  | some rename =>
    dsimp only
    by_cases hrename : rename.types = columns.map Column.type
    · rw [if_pos hrename, if_pos hrename]
      exact ⟨rename, by rw [htypes, hrename], rfl, rfl⟩
    · rw [if_neg hrename, if_neg hrename]
      exact rfl

theorem alike_makeSetOp (op : SetOp) (hl : left.schema = left'.schema)
    (hr : right.schema = right'.schema) :
    Alike (fun q q' => left.schema.types = right.schema.types ∧ q = setOp op left right ∧
        q' = setOp op left' right')
      (makeSetOp op left right) (makeSetOp op left' right') := by
  unfold makeSetOp
  rw [← hl, ← hr]
  apply (Alike.self _).bind
  rintro _ _ ⟨hcheck, -⟩
  exact ⟨checkCompatible_eq_ok_iff.1 hcheck, rfl, rfl⟩

end Query

/-! ## Bindings -/

/-- The same names are bound, to queries that `B` relates. -/
def Bindings.Related (B : Query → Query → Prop) (b b' : Bindings) : Prop :=
  ∀ name, Option.Rel B (b.get? name) (b'.get? name)

namespace Bindings.Related

variable {B : Query → Query → Prop} {b b' : Bindings}

theorem cases (h : b.Related B b') (name : String) :
    (b.get? name = none ∧ b'.get? name = none) ∨
      ∃ q q', b.get? name = some q ∧ b'.get? name = some q' ∧ B q q' := by
  have hname := h name
  cases hb : b.get? name with
  | none =>
    rw [hb] at hname
    cases hb' : b'.get? name with
    | none => exact Or.inl ⟨rfl, rfl⟩
    | some q' => rw [hb'] at hname; cases hname
  | some q =>
    rw [hb] at hname
    cases hb' : b'.get? name with
    | none => rw [hb'] at hname; cases hname
    | some q' =>
      rw [hb'] at hname
      cases hname with
      | some hq => exact Or.inr ⟨q, q', rfl, rfl, hq⟩

theorem resolve (h : b.Related B b') (name : String) :
    Alike B (b.resolve name) (b'.resolve name) := by
  unfold Bindings.resolve
  rcases h.cases name with ⟨hb, hb'⟩ | ⟨q, q', hb, hb', hq⟩
  · rw [hb, hb']
    exact rfl
  · rw [hb, hb']
    exact hq

end Bindings.Related

/-- The same names are bound, to equivalent queries. -/
def Bindings.Equivalent (env : Environment) (store store' : Store) (b b' : Bindings) : Prop :=
  ∀ name, Option.Rel (Query.Equivalent env store store') (b.get? name) (b'.get? name)

namespace Bindings.Equivalent

variable {env : Environment} {store store' : Store} {b b' : Bindings}

theorem related (h : b.Equivalent env store store' b') :
    b.Related (Query.Equivalent env store store') b' := h

theorem cases (h : b.Equivalent env store store' b') (name : String) :
    (b.get? name = none ∧ b'.get? name = none) ∨
      ∃ q q', b.get? name = some q ∧ b'.get? name = some q' ∧
        q.Equivalent env store store' q' :=
  h.related.cases name

theorem resolve (h : b.Equivalent env store store' b') (name : String) :
    Alike (Query.Equivalent env store store') (b.resolve name) (b'.resolve name) :=
  h.related.resolve name

theorem schema (h : b.Equivalent env store store' b') (name : String) :
    (b.get? name).map Query.schema = (b'.get? name).map Query.schema := by
  rcases h.cases name with ⟨hb, hb'⟩ | ⟨q, q', hb, hb', hq⟩
  · rw [hb, hb']
  · rw [hb, hb']
    exact congrArg some hq.schema

end Bindings.Equivalent

/-! ## Expressions -/

namespace Expr

/-- Operators take queries that `B` relates, as bound queries, to queries that `R` relates.  What
an operator needs of the schemas is that of the first query, and `B` keeps schemas. -/
structure Kept (B : Query → Query → Prop) (R : Expr → Query → Query → Prop) : Prop where
  schema {q q' : Query} : B q q' → q.schema = q'.schema
  load {path : String} {columns : List Column} {schema : Schema} :
    Schema.ofColumns columns = .ok schema →
      R (.load path columns) (.load path schema) (.load path schema)
  table {rows : List Tuple} {columns : List Column} {schema : Schema} :
    (∀ t ∈ rows, schema.Admits t) →
      R (.table rows columns) (.table rows schema) (.table rows schema)
  reference {name : String} {q q' : Query} : B q q' → R (.reference name) q q'
  distinct {x : Expr} {q q' : Query} : R x q q' → R (.distinct x) (.distinct q) (.distinct q')
  limit {name : String} {count : Nat} {q q' : Query} :
    B q q' → R (.limit name count) (.limit q count) (.limit q' count)
  setOp {op : SetOp} {x y : String} {left left' right right' : Query} :
    B left left' → B right right' → left.schema.types = right.schema.types →
      R (.setOp op x y) (.setOp op left right) (.setOp op left' right')
  foreach {name : String} {columns : List String} {rename : Option (List Column)}
    {q q' : Query} {indexes : List Nat} {schema : Schema} :
    B q q' → Query.typesAt q.schema.types indexes = some schema.types →
      R (.foreach name columns rename) (.foreach q indexes schema) (.foreach q' indexes schema)
  join {x y : JoinSide} {left left' right right' : Query} {on : List (Nat × Nat)}
    {schema : Schema} :
    B left left' → B right right' → schema.types = left.schema.types ++ right.schema.types →
      R (.join x y) (.join left right on schema) (.join left' right' on schema)

namespace Kept

variable {B : Query → Query → Prop} {R : Expr → Query → Query → Prop} {b b' : Bindings}

theorem alike_analyzeJoin (hkept : Kept B R) (h : b.Related B b') (left right : JoinSide) :
    Alike (R (.join left right)) (analyzeJoin b left right) (analyzeJoin b' left right) := by
  unfold analyzeJoin
  by_cases harity : left.columns.length = right.columns.length
  · rw [if_pos harity, if_pos harity]
    apply (h.resolve left.name).bind
    intro l l' hl
    apply (h.resolve right.name).bind
    intro r r' hr
    rw [← hkept.schema hl, ← hkept.schema hr]
    apply (Alike.self _).bind
    rintro on _ ⟨-, rfl⟩
    apply (Query.alike_makeJoin (hkept.schema hl) (hkept.schema hr) on left.name right.name).mono
    rintro q q' ⟨schema, htypes, rfl, rfl⟩
    exact hkept.join hl hr htypes
  · rw [if_neg harity, if_neg harity]
    exact rfl

theorem alike_analyzeForeach (hkept : Kept B R) (h : b.Related B b') (input : String)
    (columns : List String) (rename : Option (List Column)) :
    Alike (R (.foreach input columns rename)) (analyzeForeach b input columns rename)
      (analyzeForeach b' input columns rename) := by
  unfold analyzeForeach
  apply (h.resolve input).bind
  intro q q' hq
  rw [← hkept.schema hq]
  apply (Alike.self _).bind
  rintro indexes _ ⟨-, rfl⟩
  have hmake : ∀ schema? : Option Schema, Alike (R (.foreach input columns rename))
      (Query.makeForeach q indexes schema?) (Query.makeForeach q' indexes schema?) := by
    intro schema?
    apply (Query.alike_makeForeach (hkept.schema hq) indexes schema?).mono
    rintro r r' ⟨schema, htypes, rfl, rfl⟩
    exact hkept.foreach hq htypes
  cases rename with
  | none => exact hmake none
  | some rename =>
    apply (Alike.self _).bind
    rintro schema _ ⟨-, rfl⟩
    exact hmake (some schema)

/-- **Analysis ends alike under related bindings.** -/
theorem alike_analyze (hkept : Kept B R) (h : b.Related B b') (x : Expr) :
    Alike (R x) (x.analyze b) (x.analyze b') := by
  induction x with
  | load path columns =>
    apply (Alike.self _).bind
    rintro schema _ ⟨hschema, rfl⟩
    exact hkept.load hschema
  | table rows columns =>
    apply (Alike.self _).bind
    rintro schema _ ⟨-, rfl⟩
    apply (Alike.self _).mono
    rintro q _ ⟨hq, rfl⟩
    obtain ⟨hrows, rfl⟩ := Query.makeTable_eq_ok_iff.1 hq
    exact hkept.table hrows
  | reference name => exact (h.resolve name).mono fun q q' => hkept.reference
  | distinct input ih =>
    apply ih.bind
    intro q q' hq
    exact hkept.distinct hq
  | limit input count =>
    apply (h.resolve input).bind
    intro q q' hq
    exact hkept.limit hq
  | setOp op left right =>
    apply (h.resolve left).bind
    intro l l' hl
    apply (h.resolve right).bind
    intro r r' hr
    apply (Query.alike_makeSetOp op (hkept.schema hl) (hkept.schema hr)).mono
    rintro q q' ⟨htypes, rfl, rfl⟩
    exact hkept.setOp hl hr htypes
  | foreach input columns rename => exact hkept.alike_analyzeForeach h input columns rename
  | join left right => exact hkept.alike_analyzeJoin h left right

end Kept

/-- No part of the expression is a limit. -/
def LimitFree : Expr → Prop
  | limit .. => False
  | distinct input => input.LimitFree
  | _ => True

/-- A file that the expression loads, with columns that make a schema, can be read to its end. -/
def Readable (env : Environment) : Expr → Prop
  | load path columns => ∀ schema, Schema.ofColumns columns = .ok schema →
    ∃ ts, ((Query.load path schema).drain env .empty).outcome = .ok ts
  | distinct input => input.Readable env
  | _ => True

/-- Equivalent queries, or a file that cannot be read to its end. -/
def Analyzed (env : Environment) (store store' : Store) (x : Expr) (q q' : Query) : Prop :=
  q.Equivalent env store store' q' ∨
    ¬x.Readable env ∧ ∀ ts, ¬q'.Yields env store' ts

variable {env : Environment} {store store' : Store} {b b' : Bindings}

theorem analyzed_load (path : String) {columns : List Column} {schema : Schema}
    (hschema : Schema.ofColumns columns = .ok schema) :
    Analyzed env store store' (.load path columns) (.load path schema) (.load path schema) := by
  by_cases hts : ∃ ts, (Query.load path schema).Yields env .empty ts
  · obtain ⟨ts, hts⟩ := hts
    exact Or.inl (Query.Equivalent.load hts)
  · refine Or.inr ⟨fun hread => ?_, fun ts h => hts ⟨ts, h⟩⟩
    obtain ⟨ts, hdrain⟩ := hread schema hschema
    exact hts ⟨ts, Query.yields_iff.2 hdrain⟩

theorem kept_analyzed (hstore : store.WellTyped) :
    Kept (Query.Equivalent env store store')
      fun x q q' => x.LimitFree → x.Analyzed env store store' q q' where
  schema h := h.schema
  load hschema _ := analyzed_load _ hschema
  table hrows _ := Or.inl (Query.Equivalent.table hrows)
  reference h _ := Or.inl h
  distinct h hlimit := by
    rcases h hlimit with hq | ⟨hread, hfail⟩
    · exact Or.inl hq.distinct
    · refine Or.inr ⟨hread, fun ts hts => ?_⟩
      obtain ⟨us, hus⟩ := Query.yields_of_distinct hts
      exact hfail us hus
  limit _ hlimit := hlimit.elim
  setOp hl hr htypes _ := Or.inl (hl.setOp _ hr htypes)
  foreach h htypes _ := Or.inl (h.foreach hstore htypes)
  join hl hr htypes _ := Or.inl (hl.join hr _ htypes)

/-- **Under equivalent bindings the queries are equivalent again**, or stand on a file that cannot
be read to its end. -/
theorem alike_analyze (hstore : store.WellTyped) (h : b.Equivalent env store store' b')
    (x : Expr) (hlimit : x.LimitFree) :
    Alike (x.Analyzed env store store') (x.analyze b) (x.analyze b') :=
  ((kept_analyzed hstore).alike_analyze h.related x).mono fun _ _ hq => hq hlimit

end Expr

end BagQuery
