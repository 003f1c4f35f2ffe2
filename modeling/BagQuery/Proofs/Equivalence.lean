import BagQuery.Proofs.Reference
import BagQuery.Proofs.TypeSoundness
import Mathlib.Data.List.Perm.Lattice

/-!
# Queries with the same tuples

A query yields some tuples when its items are those tuples and nothing fails (`Query.Yields`).  Two
queries, each on a store of its own, are equivalent when they have one schema and yield the same
tuples, in whatever order.  Every operator but `limit` keeps that: it depends on the multisets of
its inputs only.  A join and a choice of columns do so tuple by tuple, intersections and
differences go through bags, and of a distinct query only the set of its input counts.

The choice of columns needs more, since a column that is not there is a failure.  That is why one
side of an equivalence is well typed: then its tuples have the types of the schema, and so have
those of the other side.
-/

namespace BagQuery

open BagQuery.Stream (Item given tuples tuples_given tuples_eq_ok_iff joined pairs selected firsts
  limited)

/-! ## Lists of tuples -/

theorem Stream.flatMap_joined (on : List (Nat × Nat)) (right left : List Tuple) :
    (given left).flatMap (joined on right) = given (left.flatMap (pairs on right)) := by
  induction left with
  | nil => rfl
  | cons t left ih =>
    rw [given_cons, List.flatMap_cons, ih, joined, List.flatMap_cons, given_append]

theorem Stream.pairs_perm {right right' : List Tuple} (h : right.Perm right')
    (on : List (Nat × Nat)) (t : Tuple) : (pairs on right t).Perm (pairs on right' t) :=
  (h.map _).filter _

theorem Stream.map_selected {columns : List Nat} {ts : List Tuple}
    (h : ∀ t ∈ ts, (t.select? columns).isSome) :
    (given ts).map (selected columns) = given (ts.filterMap fun t => t.select? columns) := by
  induction ts with
  | nil => rfl
  | cons t ts ih =>
    obtain ⟨ht, hts⟩ := List.forall_mem_cons.1 h
    obtain ⟨u, hu⟩ := Option.isSome_iff_exists.1 ht
    rw [given_cons, List.map_cons, ih hts, selected, hu, List.filterMap_cons, hu, given_cons]

/-- The first occurrences of tuples are tuples, each of them once. -/
theorem Stream.firsts_given (seen ts : List Tuple) :
    ∃ us, firsts seen (given ts) = given us ∧ us.Nodup ∧ ∀ t, t ∈ us ↔ t ∈ ts ∧ t ∉ seen := by
  induction ts generalizing seen with
  | nil => exact ⟨[], rfl, List.nodup_nil, by simp⟩
  | cons t ts ih =>
    rw [given_cons, firsts]
    by_cases ht : t ∈ seen
    · obtain ⟨us, hus, hnodup, hmem⟩ := ih seen
      rw [if_pos ht]
      refine ⟨us, hus, hnodup, fun u => ?_⟩
      rw [hmem, List.mem_cons]
      constructor
      · rintro ⟨hu, hseen⟩
        exact ⟨Or.inr hu, hseen⟩
      · rintro ⟨rfl | hu, hseen⟩
        · exact absurd ht hseen
        · exact ⟨hu, hseen⟩
    · obtain ⟨us, hus, hnodup, hmem⟩ := ih (t :: seen)
      rw [if_neg ht, hus]
      refine ⟨t :: us, rfl, List.nodup_cons.2 ⟨fun h => ?_, hnodup⟩, fun u => ?_⟩
      · exact ((hmem t).1 h).2 List.mem_cons_self
      · rw [List.mem_cons, hmem, List.mem_cons, List.mem_cons]
        by_cases hu : u = t
        · subst hu
          exact ⟨fun _ => ⟨Or.inl rfl, ht⟩, fun _ => Or.inl rfl⟩
        · simp [hu]

/-- Failures stay where the first occurrences are kept. -/
theorem Stream.eq_given_of_firsts {seen us : List Tuple} {items : List Item}
    (h : firsts seen items = given us) : ∃ ts, items = given ts := by
  induction items generalizing seen us with
  | nil => exact ⟨[], rfl⟩
  | cons item items ih =>
    cases item with
    | error e =>
      cases us with
      | nil => cases h
      | cons u us => cases h
    | ok t =>
      rw [firsts] at h
      by_cases ht : t ∈ seen
      · rw [if_pos ht] at h
        obtain ⟨ts, rfl⟩ := ih h
        exact ⟨t :: ts, rfl⟩
      · rw [if_neg ht] at h
        cases us with
        | nil => cases h
        | cons u us =>
          obtain ⟨ts, rfl⟩ := ih (List.cons.inj h).2
          exact ⟨t :: ts, rfl⟩

theorem Stream.limited_given (count : Nat) (ts : List Tuple) :
    limited count (given ts) = given (ts.take count) := by
  induction ts generalizing count with
  | nil =>
    rw [List.take_nil]
    exact limited_nil count
  | cons t ts ih =>
    cases count with
    | zero => rfl
    | succ count =>
      rw [given_cons, limited, ih, List.take_succ_cons, given_cons]

namespace Query

/-! ## Yields -/

/-- The items of the query are the tuples. -/
def Yields (env : Environment) (store : Store) (q : Query) (ts : List Tuple) : Prop :=
  q.items env store = .ok (given ts)

section Yields

variable {env : Environment} {store : Store} {q left right : Query} {ts us ls rs : List Tuple}

/-- The outcome of draining a query. -/
theorem outcome_drain (env : Environment) (store : Store) (q : Query) :
    (q.drain env store).outcome = q.items env store >>= tuples := by
  rw [drain, Access.outcome_bind]
  obtain ⟨e, hs, hi⟩ | ⟨s, hs, hi⟩ := open_cases (outcome_openStream env store q)
  · rw [hs, hi]
    rfl
  · rw [hs, hi]
    exact s.drain_eq_tuples

/-- **A query yields what draining it gives.** -/
theorem yields_iff : q.Yields env store ts ↔ (q.drain env store).outcome = .ok ts := by
  rw [outcome_drain, Attempt.bind_eq_ok_iff, Yields]
  constructor
  · intro h
    exact ⟨given ts, h, tuples_given ts⟩
  · rintro ⟨items, hitems, h⟩
    rw [hitems, tuples_eq_ok_iff.1 h]

theorem Yields.admits (h : q.Yields env store ts) (hstore : store.WellTyped) (hq : q.WellTyped) :
    ∀ t ∈ ts, q.schema.Admits t := by
  have hgives := gives_drain env hstore hq
  rw [Access.Gives, yields_iff.1 h] at hgives
  exact hgives

theorem Yields.unique (h : q.Yields env store ts) (h' : q.Yields env store us) : ts = us := by
  have hdrain := yields_iff.1 h
  rw [yields_iff.1 h'] at hdrain
  exact (Except.ok.inj hdrain).symm

theorem Yields.table (rows : List Tuple) (schema : Schema) :
    (Query.table rows schema).Yields env store rows := rfl

theorem Yields.scan {key : Key} {r : Relation} {schema : Schema}
    (h : store.get? key = some r) (hschema : schema = r.schema) :
    (Query.scan key schema).Yields env store r.bag.elements := by
  subst hschema
  rw [Yields, items, relationItems, h]
  exact if_pos rfl

/-- Other relations may come and go under a scan. -/
theorem Yields.scan_congr {key : Key} {schema : Schema} {store' : Store}
    (h : (Query.scan key schema).Yields env store ts)
    (hkey : store'.get? key = store.get? key) : (Query.scan key schema).Yields env store' ts := by
  unfold Yields at *
  rw [items, relationItems] at *
  rw [hkey]
  exact h

theorem Yields.join (hl : left.Yields env store ls) (hr : right.Yields env store rs)
    (on : List (Nat × Nat)) (schema : Schema) :
    (Query.join left right on schema).Yields env store (ls.flatMap (pairs on rs)) := by
  unfold Yields at *
  rw [items, hl, hr, ← Stream.flatMap_joined]
  show (tuples (given rs) >>= fun rs => pure ((given ls).flatMap (joined on rs))) = _
  rw [tuples_given]
  rfl

theorem Yields.foreach (h : q.Yields env store ts) {columns : List Nat}
    (hcolumns : ∀ t ∈ ts, (t.select? columns).isSome) (schema : Schema) :
    (Query.foreach q columns schema).Yields env store
      (ts.filterMap fun t => t.select? columns) := by
  unfold Yields at *
  rw [items, h, ← Stream.map_selected hcolumns]
  rfl

theorem Yields.union (hl : left.Yields env store ls) (hr : right.Yields env store rs) :
    (Query.setOp .union left right).Yields env store (ls ++ rs) := by
  unfold Yields at *
  rw [items, hl, hr, Stream.given_append]
  rfl

theorem Yields.intersect (hl : left.Yields env store ls) (hr : right.Yields env store rs) :
    (Query.setOp .intersect left right).Yields env store (Tuple.sorted (ls.bagInter rs)) := by
  unfold Yields at *
  rw [items, hl, hr]
  show (tuples (given ls) >>= fun ls => tuples (given rs) >>= fun rs =>
    pure (given (Tuple.sorted (ls.bagInter rs)))) = _
  rw [tuples_given, tuples_given]
  rfl

theorem Yields.diff (hl : left.Yields env store ls) (hr : right.Yields env store rs) :
    (Query.setOp .diff left right).Yields env store (Tuple.sorted (ls.diff rs)) := by
  unfold Yields at *
  rw [items, hl, hr]
  show (tuples (given ls) >>= fun ls => tuples (given rs) >>= fun rs =>
    pure (given (Tuple.sorted (ls.diff rs)))) = _
  rw [tuples_given, tuples_given]
  rfl

theorem Yields.distinct (h : q.Yields env store ts) :
    ∃ us, (Query.distinct q).Yields env store us ∧ us.Nodup ∧ ∀ t, t ∈ us ↔ t ∈ ts := by
  obtain ⟨us, hus, hnodup, hmem⟩ := Stream.firsts_given [] ts
  refine ⟨us, ?_, hnodup, fun t => ?_⟩
  · unfold Yields at *
    rw [items, h, ← hus]
    rfl
  · rw [hmem]
    simp

theorem yields_of_distinct (h : (Query.distinct q).Yields env store ts) :
    ∃ us, q.Yields env store us := by
  unfold Yields at *
  rw [items, Attempt.bind_eq_ok_iff] at h
  obtain ⟨items, hitems, h⟩ := h
  obtain ⟨us, rfl⟩ := Stream.eq_given_of_firsts (Except.ok.inj h)
  exact ⟨us, hitems⟩

theorem Yields.limit (h : q.Yields env store ts) (count : Nat) :
    (Query.limit q count).Yields env store (ts.take count) := by
  unfold Yields at *
  rw [items, h, ← Stream.limited_given]
  rfl

end Yields

/-! ## Equivalent queries -/

/-- One schema, and the same tuples as often. -/
structure Equivalent (env : Environment) (store store' : Store) (q q' : Query) : Prop where
  wellTyped : q.WellTyped
  schema : q.schema = q'.schema
  tuples : ∃ ts ts', q.Yields env store ts ∧ q'.Yields env store' ts' ∧ ts.Perm ts'

namespace Equivalent

variable {env : Environment} {store store' : Store} {q q' left left' right right' : Query}

theorem perm (h : Equivalent env store store' q q') {ts ts' : List Tuple}
    (hts : q.Yields env store ts) (hts' : q'.Yields env store' ts') : ts.Perm ts' := by
  obtain ⟨us, us', hus, hus', hperm⟩ := h.tuples
  rw [hts.unique hus, hts'.unique hus']
  exact hperm

theorem table {rows : List Tuple} {schema : Schema} (h : ∀ t ∈ rows, schema.Admits t) :
    Equivalent env store store' (.table rows schema) (.table rows schema) :=
  ⟨h, rfl, rows, rows, .table rows schema, .table rows schema, .refl rows⟩

theorem load {path : String} {schema : Schema} {ts : List Tuple}
    (h : (Query.load path schema).Yields env store ts) :
    Equivalent env store store' (.load path schema) (.load path schema) :=
  ⟨trivial, rfl, ts, ts, h, h, .refl ts⟩

/-- **A join depends on the multisets of its inputs.** -/
theorem join (hl : Equivalent env store store' left left')
    (hr : Equivalent env store store' right right') (on : List (Nat × Nat)) {schema : Schema}
    (htypes : schema.types = left.schema.types ++ right.schema.types) :
    Equivalent env store store' (.join left right on schema) (.join left' right' on schema) := by
  obtain ⟨ls, ls', hls, hls', hlperm⟩ := hl.tuples
  obtain ⟨rs, rs', hrs, hrs', hrperm⟩ := hr.tuples
  refine ⟨⟨hl.wellTyped, hr.wellTyped, htypes⟩, rfl, _, _, hls.join hrs on schema,
    hls'.join hrs' on schema, ?_⟩
  exact hlperm.flatMap fun t _ => Stream.pairs_perm hrperm on t

/-- **A choice of columns depends on the multiset of its input.** -/
theorem foreach (h : Equivalent env store store' q q') (hstore : store.WellTyped)
    {columns : List Nat} {schema : Schema}
    (htypes : typesAt q.schema.types columns = some schema.types) :
    Equivalent env store store' (.foreach q columns schema) (.foreach q' columns schema) := by
  obtain ⟨ts, ts', hts, hts', hperm⟩ := h.tuples
  have hselect : ∀ t ∈ ts, (t.select? columns).isSome := by
    intro t ht
    obtain ⟨u, hu, -⟩ := Tuple.has_select (hts.admits hstore h.wellTyped t ht) htypes
    rw [hu]
    rfl
  have hselect' : ∀ t ∈ ts', (t.select? columns).isSome :=
    fun t ht => hselect t (hperm.mem_iff.2 ht)
  refine ⟨⟨h.wellTyped, htypes⟩, rfl, _, _, hts.foreach hselect schema,
    hts'.foreach hselect' schema, ?_⟩
  exact hperm.filterMap _

/-- **A set operator depends on the multisets of its inputs.** -/
theorem setOp (op : SetOp) (hl : Equivalent env store store' left left')
    (hr : Equivalent env store store' right right')
    (htypes : left.schema.types = right.schema.types) :
    Equivalent env store store' (.setOp op left right) (.setOp op left' right') := by
  obtain ⟨ls, ls', hls, hls', hlperm⟩ := hl.tuples
  obtain ⟨rs, rs', hrs, hrs', hrperm⟩ := hr.tuples
  refine ⟨⟨hl.wellTyped, hr.wellTyped, htypes⟩, hl.schema, ?_⟩
  cases op with
  | union => exact ⟨_, _, hls.union hrs, hls'.union hrs', hlperm.append hrperm⟩
  | intersect =>
    refine ⟨_, _, hls.intersect hrs, hls'.intersect hrs', ?_⟩
    rw [Tuple.sorted_congr (hlperm.bagInter hrperm)]
  | diff =>
    refine ⟨_, _, hls.diff hrs, hls'.diff hrs', ?_⟩
    rw [Tuple.sorted_congr (hlperm.diff hrperm)]

/-- **A distinct query depends on the set of tuples of its input.** -/
theorem distinct (h : Equivalent env store store' q q') :
    Equivalent env store store' (.distinct q) (.distinct q') := by
  obtain ⟨ts, ts', hts, hts', hperm⟩ := h.tuples
  obtain ⟨us, hus, hnodup, hmem⟩ := hts.distinct
  obtain ⟨us', hus', hnodup', hmem'⟩ := hts'.distinct
  refine ⟨h.wellTyped, h.schema, us, us', hus, hus', ?_⟩
  rw [List.perm_ext_iff_of_nodup hnodup hnodup']
  intro t
  rw [hmem, hmem', hperm.mem_iff]

/-- **A limit depends on the order of its input**, so that it takes the same must be known. -/
theorem limit (h : Equivalent env store store' q q') {count : Nat}
    (htake : ∀ ts ts', q.Yields env store ts → q'.Yields env store' ts' →
      (ts.take count).Perm (ts'.take count)) :
    Equivalent env store store' (.limit q count) (.limit q' count) := by
  obtain ⟨ts, ts', hts, hts', -⟩ := h.tuples
  exact ⟨h.wellTyped, h.schema, _, _, hts.limit count, hts'.limit count, htake ts ts' hts hts'⟩

/-- Instead of a query, its tuples may be stored and scanned. -/
theorem of_stored (h : Equivalent env store store' q q') {ts : List Tuple}
    (hts : q'.Yields env store' ts) {key : Key} {store'' : Store}
    (hkey : store''.get? key = some ⟨q'.schema, .ofList ts⟩) :
    Equivalent env store store'' q (.scan key q'.schema) := by
  obtain ⟨us, us', hus, hus', hperm⟩ := h.tuples
  obtain rfl := hts.unique hus'
  exact ⟨h.wellTyped, h.schema, us, _, hus, .scan hkey rfl,
    hperm.trans (Bag.elements_ofList_perm ts).symm⟩

/-- Other relations may come and go under a scan. -/
theorem scan_congr {key : Key} {schema : Schema} {store'' : Store}
    (h : Equivalent env store store' q (.scan key schema))
    (hkey : store''.get? key = store'.get? key) :
    Equivalent env store store'' q (.scan key schema) := by
  obtain ⟨ts, ts', hts, hts', hperm⟩ := h.tuples
  exact ⟨h.wellTyped, h.schema, ts, ts', hts, hts'.scan_congr hkey, hperm⟩

end Equivalent

end Query

end BagQuery
