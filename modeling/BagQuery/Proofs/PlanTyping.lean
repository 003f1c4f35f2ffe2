import BagQuery.Evaluation
import BagQuery.Proofs.Attempt
import BagQuery.Proofs.BagElements
import BagQuery.Proofs.DictionaryKeys

/-!
# Well-typed plans and stores

`Query.Built` holds of the queries that the checking constructors make, and `Plan.Built` of the
plans over them.  What the checks come to is `Query.WellTyped`, which looks at the finished query
only: the rows of a table fit its schema, the types of a join are those of its inputs side by
side, the columns that are chosen are there and have the types of the new schema, and both inputs
of a set operator have the same types.  `Query.Built.wellTyped` leads from one to the other.

A store is well typed when every row of every relation fits the schema of the relation
(`Store.WellTyped`).  Both ways of writing keep that.
-/

namespace BagQuery

open Attempt

/-! ## Built plans -/

/-- The query was made by the checking constructors.  A scan may have been built over another
store than the one it is evaluated on. -/
inductive Query.Built : Query → Prop
  | load (path : String) (schema : Schema) : Built (.load path schema)
  | table {rows : List Tuple} {schema : Schema} {q : Query} :
      makeTable rows schema = .ok q → Built q
  | scan {store : Store} {key : Key} {q : Query} : makeScan store key = .ok q → Built q
  | join {left right : Query} {on : List (Nat × Nat)} {leftLabel rightLabel : String} {q : Query} :
      Built left → Built right → makeJoin left right on leftLabel rightLabel = .ok q → Built q
  | foreach {input : Query} {indexes : List Nat} {rename : Option Schema} {q : Query} :
      Built input → makeForeach input indexes rename = .ok q → Built q
  | setOp {op : SetOp} {left right q : Query} :
      Built left → Built right → makeSetOp op left right = .ok q → Built q
  | distinct {input : Query} : Built input → Built (.distinct input)
  | limit {input : Query} (count : Nat) : Built input → Built (.limit input count)

/-- The plan was made by the checking constructors. -/
inductive Plan.Built : Plan → Prop
  | query {q : Query} : q.Built → Built (.query q)
  | insert (key : Key) {p : Plan} {q : Query} : Built p → p.asInput = .ok q → Built (.insert key q)
  | replace (key : Key) {p : Plan} {q : Query} :
      Built p → p.asInput = .ok q → Built (.replace key q)

namespace Query

/-- The types of the columns with some indexes. -/
def typesAt (types : List ColumnType) (indexes : List Nat) : Option (List ColumnType) :=
  indexes.mapM fun i => types[i]?

/-- The parts of the query fit together. -/
def WellTyped : Query → Prop
  | load .. | scan .. => True
  | table rows schema => ∀ t ∈ rows, schema.Admits t
  | join left right _ schema =>
    left.WellTyped ∧ right.WellTyped ∧ schema.types = left.schema.types ++ right.schema.types
  | foreach input columns schema =>
    input.WellTyped ∧ typesAt input.schema.types columns = some schema.types
  | setOp _ left right =>
    left.WellTyped ∧ right.WellTyped ∧ left.schema.types = right.schema.types
  | distinct input | limit input _ => input.WellTyped

/-! ## What the constructors check -/

theorem makeTable_eq_ok_iff {rows : List Tuple} {schema : Schema} {q : Query} :
    makeTable rows schema = .ok q ↔ (∀ t ∈ rows, schema.Admits t) ∧ q = table rows schema := by
  rw [makeTable, bind_eq_ok_iff]
  constructor
  · rintro ⟨_, hcheck, h⟩
    cases h
    exact ⟨fun t ht => Schema.check_eq_ok_iff.1 (forM_eq_ok_iff.1 hcheck t ht), rfl⟩
  · rintro ⟨h, rfl⟩
    exact ⟨(), forM_eq_ok_iff.2 fun t ht => Schema.check_eq_ok_iff.2 (h t ht), rfl⟩

theorem makeScan_eq_ok_iff {store : Store} {key : Key} {q : Query} :
    makeScan store key = .ok q ↔ ∃ r, store.get? key = some r ∧ q = scan key r.schema := by
  rw [makeScan, Store.relation]
  cases store.get? key with
  | none =>
    constructor
    · intro h; cases h
    · rintro ⟨r, h, -⟩; cases h
  | some r =>
    constructor
    · intro h; cases h; exact ⟨r, rfl, rfl⟩
    · rintro ⟨r', h, rfl⟩; cases h; rfl

theorem types_of_join {left right schema : Schema} {leftLabel rightLabel : String}
    (h : Schema.join [left, right] [leftLabel, rightLabel] = .ok schema) :
    schema.types = left.types ++ right.types := by
  rw [Schema.join, if_pos (by rfl), Schema.ofColumns_eq_ok_iff] at h
  rw [Schema.types, h]
  simp [Schema.labelled, Schema.types, Function.comp_def]

theorem makeJoin_eq_ok {left right q : Query} {on : List (Nat × Nat)}
    {leftLabel rightLabel : String} (h : makeJoin left right on leftLabel rightLabel = .ok q) :
    ∃ schema, schema.types = left.schema.types ++ right.schema.types ∧
      q = join left right on schema := by
  obtain ⟨schema, hschema, h⟩ := bind_eq_ok_iff.1 h
  obtain ⟨_, -, h⟩ := bind_eq_ok_iff.1 h
  cases h
  exact ⟨schema, types_of_join hschema, rfl⟩

theorem typesAt_of_columnAt {schema : Schema} {indexes : List Nat} {columns : List Column}
    (h : indexes.mapM (columnAt schema) = .ok columns) :
    typesAt schema.types indexes = some (columns.map Column.type) := by
  replace h := mapM_eq_ok_iff.1 h
  induction h with
  | nil => rfl
  | @cons i c indexes columns hi _ ih =>
    have hc : schema.columns[i]? = some c := by
      unfold columnAt at hi
      split at hi
      · next h => cases hi; exact h
      · cases hi
    have ht : schema.types[i]? = some c.type := by rw [Schema.types, List.getElem?_map, hc]; rfl
    rw [typesAt, List.mapM_cons, ht, ← typesAt, ih]
    rfl

theorem makeForeach_eq_ok {input q : Query} {indexes : List Nat} {rename : Option Schema}
    (h : makeForeach input indexes rename = .ok q) :
    ∃ schema, typesAt input.schema.types indexes = some schema.types ∧
      q = foreach input indexes schema := by
  obtain ⟨columns, hcolumns, h⟩ := bind_eq_ok_iff.1 h
  have ht := typesAt_of_columnAt hcolumns
  cases rename with
  | some rename =>
    dsimp only at h
    split at h
    · next htypes => cases h; exact ⟨rename, by rw [ht, htypes], rfl⟩
    · cases h
  | none =>
    obtain ⟨schema, hschema, h⟩ := bind_eq_ok_iff.1 h
    cases h
    exact ⟨schema, by rw [ht, Schema.types, Schema.ofColumns_eq_ok_iff.1 hschema], rfl⟩

theorem checkCompatible_eq_ok_iff {s t : Schema} :
    s.checkCompatible t = .ok () ↔ s.types = t.types := by
  unfold Schema.checkCompatible
  by_cases h : s.Compatible t
  · rw [if_pos h]
    exact ⟨fun _ => h, fun _ => rfl⟩
  · rw [if_neg h]
    exact ⟨nofun, fun ht => absurd ht h⟩

theorem makeSetOp_eq_ok_iff {op : SetOp} {left right q : Query} :
    makeSetOp op left right = .ok q ↔
      left.schema.types = right.schema.types ∧ q = setOp op left right := by
  rw [makeSetOp, bind_eq_ok_iff]
  constructor
  · rintro ⟨_, hcheck, h⟩
    cases h
    exact ⟨checkCompatible_eq_ok_iff.1 hcheck, rfl⟩
  · rintro ⟨h, rfl⟩
    exact ⟨(), checkCompatible_eq_ok_iff.2 h, rfl⟩

/-- **What the constructors make is well typed.** -/
theorem Built.wellTyped {q : Query} (h : q.Built) : q.WellTyped := by
  induction h with
  | load => trivial
  | table h => obtain ⟨hrows, rfl⟩ := makeTable_eq_ok_iff.1 h; exact hrows
  | scan h => obtain ⟨r, -, rfl⟩ := makeScan_eq_ok_iff.1 h; trivial
  | join _ _ h ihl ihr => obtain ⟨schema, ht, rfl⟩ := makeJoin_eq_ok h; exact ⟨ihl, ihr, ht⟩
  | foreach _ h ih => obtain ⟨schema, ht, rfl⟩ := makeForeach_eq_ok h; exact ⟨ih, ht⟩
  | setOp _ _ h ihl ihr => obtain ⟨ht, rfl⟩ := makeSetOp_eq_ok_iff.1 h; exact ⟨ihl, ihr, ht⟩
  | distinct _ ih => exact ih
  | limit _ _ ih => exact ih

end Query

/-! ## Stores -/

/-- Every row of every relation passes the check of its schema. -/
def Store.WellTyped (store : Store) : Prop :=
  ∀ key r, store.get? key = some r → ∀ t ∈ r.bag.elements, r.schema.check t = .ok ()

namespace Store

theorem WellTyped.empty : Store.WellTyped .empty := by
  intro key r h
  cases h

theorem WellTyped.insert {store : Store} (h : store.WellTyped) {key : Key} {r : Relation}
    (hr : ∀ t ∈ r.bag.elements, r.schema.check t = .ok ()) :
    WellTyped (Dictionary.insert store key r) := by
  intro k r' hk
  by_cases hkey : k = key
  · subst hkey
    rw [Dictionary.get?_insert_self] at hk
    cases hk
    exact hr
  · rw [Dictionary.get?_insert_of_ne hkey] at hk
    exact h k r' hk

theorem WellTyped.erase {store : Store} (h : store.WellTyped) (key : Key) :
    WellTyped (Dictionary.erase store key) := by
  intro k r hk
  by_cases hkey : k = key
  · subst hkey
    rw [Dictionary.get?_erase_self] at hk
    cases hk
  · rw [Dictionary.get?_erase_of_ne hkey] at hk
    exact h k r hk

end Store

end BagQuery
