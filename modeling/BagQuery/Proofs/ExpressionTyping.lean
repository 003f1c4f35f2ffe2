import BagQuery.Analysis
import BagQuery.Proofs.PlanTyping

/-!
# Well-typed expressions

`Expr.HasSchema` gives the typing rules of expressions: what an expression needs of the schemas
that its names are bound to, and which schema it has then.  The rules speak of names, columns and
types only; there are no indexes in them, and no order in which things are looked up.

`Expr.analyze_iff_hasSchema` says that analysis is this judgement: it accepts exactly the
expressions that have a schema, with a query of that schema.

The work is in the two operators that analysis translates to indexes.  The index of a name is the
place of the only column of that name (`Schema.index_eq_ok_iff`), so choosing by index is choosing
by name (`Query.mapM_columnAt`), and the pairs of a join, of which the second index counts on from
the left columns, are checked against the columns that they were looked up as
(`Query.checkPair_eq`).
-/

namespace BagQuery

open Attempt

/-! ## Columns by name -/

namespace Schema

/-- The schema has the column, under the name. -/
def Has (s : Schema) (name : String) (c : Column) : Prop := c ∈ s.columns ∧ c.name = name

variable {s t : Schema} {name : String} {c d : Column} {i : Nat}

theorem Has.unique (hc : s.Has name c) (hd : s.Has name d) : c = d :=
  List.inj_on_of_nodup_map s.names_nodup hc.1 hd.1 (hc.2.trans hd.2.symm)

theorem has_iff_getElem? :
    s.Has name c ↔ ∃ i : Nat, s.columns[i]? = some c ∧ c.name = name := by
  rw [Has, List.mem_iff_getElem?, exists_and_right]

/-- **The index of a name is the place of the column of that name.** -/
theorem index_eq_ok_iff : s.index name = .ok i ↔ ∃ c, s.columns[i]? = some c ∧ c.name = name := by
  have hindex : s.index name = .ok i ↔ s.columns.findIdx? (·.name == name) = some i := by
    unfold index
    cases s.columns.findIdx? (·.name == name) <;> simp
  rw [hindex, List.findIdx?_eq_some_iff_getElem]
  constructor
  · rintro ⟨hi, hname, -⟩
    exact ⟨s.columns[i], List.getElem?_eq_getElem hi, beq_iff_eq.1 hname⟩
  · rintro ⟨c, hc, rfl⟩
    obtain ⟨hi, rfl⟩ := List.getElem?_eq_some_iff.1 hc
    refine ⟨hi, beq_self_eq_true _, fun j hj hname => ?_⟩
    -- an earlier column of the name would be the same one
    have hj' : j < (s.columns.map Column.name).length := by rw [List.length_map]; omega
    have hi' : i < (s.columns.map Column.name).length := by rwa [List.length_map]
    have heq : (s.columns.map Column.name)[j] = (s.columns.map Column.name)[i] := by
      rw [List.getElem_map, List.getElem_map]
      exact beq_iff_eq.1 hname
    have := (List.Nodup.getElem_inj_iff s.names_nodup).1 heq
    omega

theorem column_eq_ok_iff : s.column name = .ok c ↔ s.Has name c := by
  have hfound {d : Column} (h : s.columns.find? (·.name == name) = some d) : s.Has name d := by
    have hname := List.find?_some h
    exact ⟨List.mem_of_find?_eq_some h, beq_iff_eq.1 hname⟩
  unfold column
  cases hfind : s.columns.find? (·.name == name) with
  | none =>
    refine ⟨nofun, fun h => ?_⟩
    exact absurd (beq_iff_eq.2 h.2) (List.find?_eq_none.1 hfind c h.1)
  | some d =>
    constructor
    · intro h
      cases h
      exact hfound hfind
    · intro h
      rw [h.unique (hfound hfind)]

theorem names_of_forall₂ {names : List String} {cs : List Column}
    (h : List.Forall₂ s.Has names cs) : cs.map Column.name = names := by
  induction h with
  | nil => rfl
  | cons hc _ ih => rw [List.map_cons, ih, hc.2]

/-- **A projection is the columns of the names**, none of which may be repeated. -/
theorem project_eq_ok_iff {names : List String} :
    s.project names = .ok t ↔ names.Nodup ∧ List.Forall₂ s.Has names t.columns := by
  rw [project, bind_eq_ok_iff]
  constructor
  · rintro ⟨cs, hcs, ht⟩
    have hcolumns : List.Forall₂ s.Has names t.columns := by
      rw [ofColumns_eq_ok_iff.1 ht]
      exact (mapM_eq_ok_iff.1 hcs).imp fun _ _ => column_eq_ok_iff.1
    refine ⟨?_, hcolumns⟩
    rw [← names_of_forall₂ hcolumns]
    exact t.names_nodup
  · rintro ⟨-, hcolumns⟩
    exact ⟨t.columns, mapM_eq_ok_iff.2 (hcolumns.imp fun _ _ => column_eq_ok_iff.2),
      ofColumns_eq_ok_iff.2 rfl⟩

/-! ## Columns by index -/

theorem getElem?_labelled (s : Schema) (label : String) (i : Nat) :
    (s.labelled label)[i]? = s.columns[i]?.map fun c => ⟨label ++ "." ++ c.name, c.type⟩ :=
  List.getElem?_map

section Joined

variable {a b : Schema} {p q : String} (hs : s.columns = a.labelled p ++ b.labelled q)

include hs

theorem getElem?_left (hi : i < a.arity) : s.columns[i]? = (a.labelled p)[i]? := by
  rw [hs, List.getElem?_append_left]
  rwa [labelled, List.length_map]

theorem getElem?_right (j : Nat) : s.columns[a.arity + j]? = (b.labelled q)[j]? := by
  have hlength : (a.labelled p).length = a.arity := List.length_map ..
  rw [hs, ← hlength, List.getElem?_append_right (Nat.le_add_right ..), Nat.add_sub_cancel_left]

end Joined

end Schema

namespace Query

theorem columnAt_eq_ok_iff {schema : Schema} {i : Nat} {c : Column} :
    columnAt schema i = .ok c ↔ schema.columns[i]? = some c := by
  unfold columnAt
  cases schema.columns[i]? <;> simp

/-- **Looking names up and going by the indexes finds the columns of the names.** -/
theorem mapM_columnAt {schema : Schema} {names : List String} {cs : List Column} :
    (∃ indexes, names.mapM schema.index = .ok indexes ∧
        indexes.mapM (columnAt schema) = .ok cs) ↔ List.Forall₂ schema.Has names cs := by
  constructor
  · rintro ⟨indexes, hindexes, hcs⟩
    replace hindexes := mapM_eq_ok_iff.1 hindexes
    replace hcs := mapM_eq_ok_iff.1 hcs
    induction hindexes generalizing cs with
    | nil =>
      cases hcs
      exact .nil
    | cons hi _ ih =>
      cases hcs with
      | cons hc hcs =>
        obtain ⟨d, hd, hname⟩ := Schema.index_eq_ok_iff.1 hi
        have hc := columnAt_eq_ok_iff.1 hc
        obtain rfl : d = _ := Option.some.inj (hd.symm.trans hc)
        exact .cons (Schema.has_iff_getElem?.2 ⟨_, hc, hname⟩) (ih hcs)
  · intro h
    induction h with
    | nil => exact ⟨[], rfl, rfl⟩
    | cons hc _ ih =>
      obtain ⟨indexes, hindexes, hcs⟩ := ih
      obtain ⟨i, hi, hname⟩ := Schema.has_iff_getElem?.1 hc
      refine ⟨i :: indexes, mapM_eq_ok_iff.2 (.cons ?_ (mapM_eq_ok_iff.1 hindexes)),
        mapM_eq_ok_iff.2 (.cons ?_ (mapM_eq_ok_iff.1 hcs))⟩
      · exact Schema.index_eq_ok_iff.2 ⟨_, hi, hname⟩
      · exact columnAt_eq_ok_iff.2 hi

theorem makeForeach_none_iff {input q : Query} {indexes : List Nat} :
    makeForeach input indexes none = .ok q ↔
      ∃ schema : Schema, indexes.mapM (columnAt input.schema) = .ok schema.columns ∧
        q = foreach input indexes schema := by
  rw [makeForeach, bind_eq_ok_iff]
  constructor
  · rintro ⟨cs, hcs, h⟩
    obtain ⟨schema, hschema, h⟩ := bind_eq_ok_iff.1 h
    cases h
    rw [← Schema.ofColumns_eq_ok_iff.1 hschema] at hcs
    exact ⟨schema, hcs, rfl⟩
  · rintro ⟨schema, hcs, rfl⟩
    exact ⟨_, hcs, bind_eq_ok_iff.2 ⟨schema, Schema.ofColumns_eq_ok_iff.2 rfl, rfl⟩⟩

theorem makeForeach_some_iff {input q : Query} {indexes : List Nat} {rename : Schema} :
    makeForeach input indexes (some rename) = .ok q ↔
      ∃ cs, indexes.mapM (columnAt input.schema) = .ok cs ∧
        rename.types = cs.map Column.type ∧ q = foreach input indexes rename := by
  rw [makeForeach, bind_eq_ok_iff]
  refine exists_congr fun cs => and_congr_right fun _ => ?_
  dsimp only
  split
  · next htypes =>
    constructor
    · intro h
      cases h
      exact ⟨htypes, rfl⟩
    · rintro ⟨-, rfl⟩
      rfl
  · next htypes => exact ⟨nofun, fun h => absurd h.1 htypes⟩

/-! ### Pairs of columns -/

/-- **A pair is checked against the columns that it was looked up as.** -/
theorem checkPair_eq {left right schema : Schema} {leftLabel rightLabel : String}
    (hschema : schema.columns = left.labelled leftLabel ++ right.labelled rightLabel)
    {i j : Nat} {c d : Column} (hc : left.columns[i]? = some c) (hd : right.columns[j]? = some d) :
    checkPair left.arity schema (i, j + left.arity) =
      if c.type = d.type then .ok ()
      else .error (.joinTypes (leftLabel ++ "." ++ c.name) c.type (rightLabel ++ "." ++ d.name)
        d.type) := by
  have hi : i < left.arity := (List.getElem?_eq_some_iff.1 hc).1
  have hleft : schema.columns[i]? = some ⟨leftLabel ++ "." ++ c.name, c.type⟩ := by
    rw [Schema.getElem?_left hschema hi, Schema.getElem?_labelled, hc]
    rfl
  have hright : schema.columns[j + left.arity]? = some ⟨rightLabel ++ "." ++ d.name, d.type⟩ := by
    rw [Nat.add_comm, Schema.getElem?_right hschema, Schema.getElem?_labelled, hd]
    rfl
  unfold checkPair
  rw [hleft, hright]
  dsimp only
  rw [if_pos ⟨hi, Nat.le_add_left ..⟩]

theorem checkPair_eq_ok_iff {left right schema : Schema} {leftLabel rightLabel : String}
    (hschema : schema.columns = left.labelled leftLabel ++ right.labelled rightLabel)
    {i j : Nat} {c d : Column} (hc : left.columns[i]? = some c) (hd : right.columns[j]? = some d) :
    checkPair left.arity schema (i, j + left.arity) = .ok () ↔ c.type = d.type := by
  rw [checkPair_eq hschema hc hd]
  split
  · next htypes => exact ⟨fun _ => htypes, fun _ => rfl⟩
  · next htypes =>
    constructor
    · intro h
      cases h
    · intro h
      exact absurd h htypes

theorem columns_of_join {left right schema : Schema} {leftLabel rightLabel : String} :
    Schema.join [left, right] [leftLabel, rightLabel] = .ok schema ↔
      schema.columns = left.labelled leftLabel ++ right.labelled rightLabel := by
  rw [Schema.join, if_pos (by rfl), Schema.ofColumns_eq_ok_iff]
  simp

theorem makeJoin_eq_ok_iff {left right q : Query} {on : List (Nat × Nat)}
    {leftLabel rightLabel : String} :
    makeJoin left right on leftLabel rightLabel = .ok q ↔
      ∃ schema : Schema, schema.columns =
          left.schema.labelled leftLabel ++ right.schema.labelled rightLabel ∧
        (∀ p ∈ on, checkPair left.schema.arity schema p = .ok ()) ∧
        q = join left right on schema := by
  rw [makeJoin, bind_eq_ok_iff]
  refine exists_congr fun schema => and_congr columns_of_join ?_
  rw [bind_eq_ok_iff]
  constructor
  · rintro ⟨_, hcheck, h⟩
    cases h
    exact ⟨forM_eq_ok_iff.1 hcheck, rfl⟩
  · rintro ⟨hcheck, rfl⟩
    exact ⟨(), forM_eq_ok_iff.2 hcheck, rfl⟩

end Query

namespace Expr

/-- The names of each pair are those of columns of one type. -/
def PairsFit (left right : Schema) (pairs : List (String × String)) : Prop :=
  ∀ p ∈ pairs, ∃ c d, left.Has p.1 c ∧ right.Has p.2 d ∧ c.type = d.type

/-- **The pairs of a join can be looked up and pass their checks exactly if they fit.** -/
theorem joinPairs_checked_iff {left right schema : Schema} {leftLabel rightLabel : String}
    (hschema : schema.columns = left.labelled leftLabel ++ right.labelled rightLabel)
    {pairs : List (String × String)} :
    (∃ on, joinPairs left right pairs = .ok on ∧
        ∀ p ∈ on, Query.checkPair left.arity schema p = .ok ()) ↔ PairsFit left right pairs := by
  induction pairs with
  | nil => exact ⟨fun _ => nofun, fun _ => ⟨[], rfl, nofun⟩⟩
  | cons pair pairs ih =>
    obtain ⟨l, r⟩ := pair
    rw [PairsFit, List.forall_mem_cons, ← PairsFit, ← ih, joinPairs, List.mapM_cons]
    constructor
    · rintro ⟨on, hon, hchecks⟩
      obtain ⟨⟨i, j'⟩, hpair, hon⟩ := bind_eq_ok_iff.1 hon
      obtain ⟨on', hon', h⟩ := bind_eq_ok_iff.1 hon
      cases h
      obtain ⟨_, hi, hpair⟩ := bind_eq_ok_iff.1 hpair
      obtain ⟨j, hj, h⟩ := bind_eq_ok_iff.1 hpair
      cases h
      obtain ⟨c, hc, hl⟩ := Schema.index_eq_ok_iff.1 hi
      obtain ⟨d, hd, hr⟩ := Schema.index_eq_ok_iff.1 hj
      obtain ⟨hcheck, hchecks⟩ := List.forall_mem_cons.1 hchecks
      have htypes := (Query.checkPair_eq_ok_iff hschema hc hd).1 hcheck
      replace hl := Schema.has_iff_getElem?.2 ⟨i, hc, hl⟩
      replace hr := Schema.has_iff_getElem?.2 ⟨j, hd, hr⟩
      exact ⟨⟨c, d, hl, hr, htypes⟩, on', hon', hchecks⟩
    · rintro ⟨⟨c, d, hl, hr, htypes⟩, on, hon, hchecks⟩
      obtain ⟨i, hc, hl⟩ := Schema.has_iff_getElem?.1 hl
      obtain ⟨j, hd, hr⟩ := Schema.has_iff_getElem?.1 hr
      have hcheck := (Query.checkPair_eq_ok_iff hschema hc hd).2 htypes
      refine ⟨(i, j + left.arity) :: on, ?_, List.forall_mem_cons.2 ⟨hcheck, hchecks⟩⟩
      refine bind_eq_ok_iff.2 ⟨(i, j + left.arity), ?_, bind_eq_ok_iff.2 ⟨on, hon, rfl⟩⟩
      refine bind_eq_ok_iff.2 ⟨i, Schema.index_eq_ok_iff.2 ⟨c, hc, hl⟩, ?_⟩
      exact bind_eq_ok_iff.2 ⟨j, Schema.index_eq_ok_iff.2 ⟨d, hd, hr⟩, rfl⟩

/-! ## The typing rules -/

/-- The expression has the schema under the bindings. -/
inductive HasSchema (b : Bindings) : Expr → Schema → Prop
  /-- Columns of a file have different names. -/
  | load (path : String) {columns : List Column} (hnames : (columns.map Column.name).Nodup) :
      HasSchema b (.load path columns) ⟨columns, hnames⟩
  /-- So do columns of a table, and every row has as many fields, of their types. -/
  | table {rows : List Tuple} {columns : List Column}
      (hnames : (columns.map Column.name).Nodup)
      (hrows : ∀ row ∈ rows, row.types = columns.map Column.type) :
      HasSchema b (.table rows columns) ⟨columns, hnames⟩
  | reference {name : String} {q : Query} (hq : b.get? name = some q) :
      HasSchema b (.reference name) q.schema
  | distinct {x : Expr} {s : Schema} (hx : HasSchema b x s) : HasSchema b (.distinct x) s
  | limit {input : String} {q : Query} (hq : b.get? input = some q) (count : Nat) :
      HasSchema b (.limit input count) q.schema
  /-- The operands of a set operator have the same types; the names are those of the left one. -/
  | setOp (op : SetOp) {left right : String} {l r : Query} (hl : b.get? left = some l)
      (hr : b.get? right = some r) (htypes : l.schema.types = r.schema.types) :
      HasSchema b (.setOp op left right) l.schema
  /-- Columns that keep their names are different ones. -/
  | choose {input : String} {names : List String} {q : Query} {s : Schema}
      (hq : b.get? input = some q) (hnames : names.Nodup)
      (hcolumns : List.Forall₂ q.schema.Has names s.columns) :
      HasSchema b (.foreach input names none) s
  /-- Columns that are renamed may be the same ones; the new names are different, and the types
  are the old ones. -/
  | rename {input : String} {names : List String} {columns : List Column} {q : Query}
      (hq : b.get? input = some q) (hnames : (columns.map Column.name).Nodup)
      (hcolumns : List.Forall₂ (fun name c => ∃ d, q.schema.Has name d ∧ d.type = c.type)
        names columns) :
      HasSchema b (.foreach input names (some columns)) ⟨columns, hnames⟩
  /-- The sides of a join are compared on equally many columns, pair by pair of one type, and
  their columns have different names under the labels of the sides. -/
  | join {left right : JoinSide} {l r : Query}
      (hlength : left.columns.length = right.columns.length) (hl : b.get? left.name = some l)
      (hr : b.get? right.name = some r)
      (hpairs : PairsFit l.schema r.schema (left.columns.zip right.columns))
      (hnames : ((l.schema.labelled left.name ++ r.schema.labelled right.name).map
        Column.name).Nodup) :
      HasSchema b (.join left right)
        ⟨l.schema.labelled left.name ++ r.schema.labelled right.name, hnames⟩

variable {b : Bindings}

theorem resolve_eq_ok_iff {name : String} {q : Query} :
    b.resolve name = .ok q ↔ b.get? name = some q := by
  unfold Bindings.resolve
  cases b.get? name <;> simp

/-! ### Operators by index -/

theorem forall₂_rename_iff {schema : Schema} {names : List String} {columns : List Column} :
    List.Forall₂ (fun name c => ∃ d, schema.Has name d ∧ d.type = c.type) names columns ↔
      ∃ cs, List.Forall₂ schema.Has names cs ∧ columns.map Column.type = cs.map Column.type := by
  constructor
  · intro h
    induction h with
    | nil => exact ⟨[], .nil, rfl⟩
    | cons hc _ ih =>
      obtain ⟨d, hd, htype⟩ := hc
      obtain ⟨cs, hcs, htypes⟩ := ih
      exact ⟨d :: cs, .cons hd hcs, by rw [List.map_cons, List.map_cons, htype, htypes]⟩
  · rintro ⟨cs, hcs, htypes⟩
    induction hcs generalizing columns with
    | nil =>
      rw [List.map_nil, List.map_eq_nil_iff] at htypes
      subst htypes
      exact .nil
    | cons hd _ ih =>
      cases columns with
      | nil => cases htypes
      | cons c columns =>
        obtain ⟨htype, htypes⟩ := List.cons.inj htypes
        exact .cons ⟨_, hd, htype.symm⟩ (ih htypes)

theorem analyzeForeach_none_iff {input : String} {names : List String} {s : Schema} :
    (∃ q, analyzeForeach b input names none = .ok q ∧ q.schema = s) ↔
      HasSchema b (.foreach input names none) s := by
  constructor
  · rintro ⟨q, h, rfl⟩
    obtain ⟨p, hp, h⟩ := bind_eq_ok_iff.1 h
    obtain ⟨indexes, hindexes, h⟩ := bind_eq_ok_iff.1 h
    obtain ⟨s, hcs, rfl⟩ := Query.makeForeach_none_iff.1 h
    have hcolumns := Query.mapM_columnAt.1 ⟨indexes, hindexes, hcs⟩
    refine .choose (resolve_eq_ok_iff.1 hp) ?_ hcolumns
    rw [← Schema.names_of_forall₂ hcolumns]
    exact s.names_nodup
  · intro h
    cases h with
    | @choose _ _ p _ hp _ hcolumns =>
      obtain ⟨indexes, hindexes, hcs⟩ := Query.mapM_columnAt.2 hcolumns
      refine ⟨.foreach p indexes s, bind_eq_ok_iff.2 ⟨p, resolve_eq_ok_iff.2 hp, ?_⟩, rfl⟩
      exact bind_eq_ok_iff.2 ⟨indexes, hindexes, Query.makeForeach_none_iff.2 ⟨s, hcs, rfl⟩⟩

theorem analyzeForeach_some_iff {input : String} {names : List String} {columns : List Column}
    {s : Schema} :
    (∃ q, analyzeForeach b input names (some columns) = .ok q ∧ q.schema = s) ↔
      HasSchema b (.foreach input names (some columns)) s := by
  constructor
  · rintro ⟨q, h, rfl⟩
    obtain ⟨p, hp, h⟩ := bind_eq_ok_iff.1 h
    obtain ⟨indexes, hindexes, h⟩ := bind_eq_ok_iff.1 h
    obtain ⟨rename, hrename, h⟩ := bind_eq_ok_iff.1 h
    obtain ⟨cs, hcs, htypes, rfl⟩ := Query.makeForeach_some_iff.1 h
    obtain rfl : rename.columns = columns := Schema.ofColumns_eq_ok_iff.1 hrename
    replace hcs := Query.mapM_columnAt.1 ⟨indexes, hindexes, hcs⟩
    have hcolumns := forall₂_rename_iff.2 ⟨cs, hcs, htypes⟩
    exact .rename (resolve_eq_ok_iff.1 hp) rename.names_nodup hcolumns
  · intro h
    cases h with
    | @rename _ _ _ p hp hnames hcolumns =>
      obtain ⟨cs, hcs, htypes⟩ := forall₂_rename_iff.1 hcolumns
      obtain ⟨indexes, hindexes, hcs⟩ := Query.mapM_columnAt.2 hcs
      refine ⟨.foreach p indexes ⟨columns, hnames⟩,
        bind_eq_ok_iff.2 ⟨p, resolve_eq_ok_iff.2 hp, ?_⟩, rfl⟩
      refine bind_eq_ok_iff.2 ⟨indexes, hindexes, bind_eq_ok_iff.2 ⟨⟨columns, hnames⟩, ?_, ?_⟩⟩
      · exact Schema.ofColumns_eq_ok_iff.2 rfl
      · exact Query.makeForeach_some_iff.2 ⟨cs, hcs, htypes, rfl⟩

theorem analyzeJoin_iff {left right : JoinSide} {s : Schema} :
    (∃ q, analyzeJoin b left right = .ok q ∧ q.schema = s) ↔ HasSchema b (.join left right) s := by
  constructor
  · rintro ⟨q, h, rfl⟩
    unfold analyzeJoin at h
    split at h
    · next hlength =>
      obtain ⟨l, hl, h⟩ := bind_eq_ok_iff.1 h
      obtain ⟨r, hr, h⟩ := bind_eq_ok_iff.1 h
      obtain ⟨on, hon, h⟩ := bind_eq_ok_iff.1 h
      obtain ⟨⟨columns, hnames⟩, rfl, hchecks, rfl⟩ := Query.makeJoin_eq_ok_iff.1 h
      have hpairs := (joinPairs_checked_iff rfl).1 ⟨on, hon, hchecks⟩
      exact .join hlength (resolve_eq_ok_iff.1 hl) (resolve_eq_ok_iff.1 hr) hpairs hnames
    · cases h
  · intro h
    cases h with
    | @join _ _ l r hlength hl hr hpairs hnames =>
      let schema : Schema := ⟨l.schema.labelled left.name ++ r.schema.labelled right.name, hnames⟩
      have hschema : schema.columns =
          l.schema.labelled left.name ++ r.schema.labelled right.name := rfl
      obtain ⟨on, hon, hchecks⟩ := (joinPairs_checked_iff hschema).2 hpairs
      refine ⟨.join l r on schema, ?_, rfl⟩
      rw [analyzeJoin, if_pos hlength]
      refine bind_eq_ok_iff.2 ⟨l, resolve_eq_ok_iff.2 hl, ?_⟩
      refine bind_eq_ok_iff.2 ⟨r, resolve_eq_ok_iff.2 hr, ?_⟩
      exact bind_eq_ok_iff.2 ⟨on, hon, Query.makeJoin_eq_ok_iff.2 ⟨schema, rfl, hchecks, rfl⟩⟩

/-! ## Analysis -/

/-- **Analysis accepts the expressions that have a schema, with a query of that schema.** -/
theorem analyze_ok_iff {x : Expr} {s : Schema} :
    (∃ q, x.analyze b = .ok q ∧ q.schema = s) ↔ HasSchema b x s := by
  induction x with
  | load path columns =>
    constructor
    · rintro ⟨q, h, rfl⟩
      obtain ⟨schema, hschema, h⟩ := bind_eq_ok_iff.1 h
      cases h
      obtain rfl := Schema.ofColumns_eq_ok_iff.1 hschema
      exact .load path schema.names_nodup
    · intro h
      cases h with
      | load _ hnames =>
        exact ⟨_, bind_eq_ok_iff.2 ⟨⟨columns, hnames⟩, Schema.ofColumns_eq_ok_iff.2 rfl, rfl⟩, rfl⟩
  | table rows columns =>
    constructor
    · rintro ⟨q, h, rfl⟩
      obtain ⟨schema, hschema, h⟩ := bind_eq_ok_iff.1 h
      obtain ⟨hrows, rfl⟩ := Query.makeTable_eq_ok_iff.1 h
      obtain rfl := Schema.ofColumns_eq_ok_iff.1 hschema
      exact .table schema.names_nodup hrows
    · intro h
      cases h with
      | table hnames hrows =>
        refine ⟨.table rows ⟨columns, hnames⟩, bind_eq_ok_iff.2 ⟨⟨columns, hnames⟩, ?_, ?_⟩, rfl⟩
        · exact Schema.ofColumns_eq_ok_iff.2 rfl
        · exact Query.makeTable_eq_ok_iff.2 ⟨hrows, rfl⟩
  | reference name =>
    constructor
    · rintro ⟨q, h, rfl⟩
      exact .reference (resolve_eq_ok_iff.1 h)
    · intro h
      cases h with
      | reference hq => exact ⟨_, resolve_eq_ok_iff.2 hq, rfl⟩
  | distinct input ih =>
    constructor
    · rintro ⟨q, h, rfl⟩
      obtain ⟨p, hp, h⟩ := bind_eq_ok_iff.1 h
      cases h
      exact .distinct (ih.1 ⟨p, hp, rfl⟩)
    · intro h
      cases h with
      | distinct hx =>
        obtain ⟨p, hp, hschema⟩ := ih.2 hx
        exact ⟨.distinct p, bind_eq_ok_iff.2 ⟨p, hp, rfl⟩, hschema⟩
  | limit input count =>
    constructor
    · rintro ⟨q, h, rfl⟩
      obtain ⟨p, hp, h⟩ := bind_eq_ok_iff.1 h
      cases h
      exact .limit (resolve_eq_ok_iff.1 hp) count
    · intro h
      cases h with
      | limit hq => exact ⟨_, bind_eq_ok_iff.2 ⟨_, resolve_eq_ok_iff.2 hq, rfl⟩, rfl⟩
  | setOp op left right =>
    constructor
    · rintro ⟨q, h, rfl⟩
      obtain ⟨l, hl, h⟩ := bind_eq_ok_iff.1 h
      obtain ⟨r, hr, h⟩ := bind_eq_ok_iff.1 h
      obtain ⟨htypes, rfl⟩ := Query.makeSetOp_eq_ok_iff.1 h
      have hx := HasSchema.setOp op (resolve_eq_ok_iff.1 hl) (resolve_eq_ok_iff.1 hr) htypes
      exact hx
    · intro h
      cases h with
      | @setOp _ _ _ l r hl hr htypes =>
        refine ⟨.setOp op l r, bind_eq_ok_iff.2 ⟨l, resolve_eq_ok_iff.2 hl, ?_⟩, rfl⟩
        refine bind_eq_ok_iff.2 ⟨r, resolve_eq_ok_iff.2 hr, ?_⟩
        exact Query.makeSetOp_eq_ok_iff.2 ⟨htypes, rfl⟩
  | foreach input names rename =>
    cases rename with
    | none => exact analyzeForeach_none_iff
    | some columns => exact analyzeForeach_some_iff
  | join left right => exact analyzeJoin_iff

/-- A choice of columns without new names has the schema of the projection to the names. -/
theorem HasSchema.project {input : String} {names : List String} {s : Schema}
    (h : HasSchema b (.foreach input names none) s) :
    ∃ p, b.get? input = some p ∧ p.schema.project names = .ok s := by
  cases h with
  | choose hq hnames hcolumns => exact ⟨_, hq, Schema.project_eq_ok_iff.2 ⟨hnames, hcolumns⟩⟩

/-- **What analysis makes of built queries is built.** -/
theorem built_of_analyze (hb : ∀ name q, b.get? name = some q → q.Built) {x : Expr} {q : Query}
    (h : x.analyze b = .ok q) : q.Built := by
  have hresolve {name : String} {p : Query} (hp : b.resolve name = .ok p) : p.Built :=
    hb name p (resolve_eq_ok_iff.1 hp)
  induction x generalizing q with
  | load path columns =>
    obtain ⟨schema, -, h⟩ := bind_eq_ok_iff.1 h
    cases h
    exact .load path schema
  | table rows columns =>
    obtain ⟨schema, -, h⟩ := bind_eq_ok_iff.1 h
    exact .table h
  | reference name => exact hresolve h
  | distinct input ih =>
    obtain ⟨p, hp, h⟩ := bind_eq_ok_iff.1 h
    cases h
    exact .distinct (ih hp)
  | limit input count =>
    obtain ⟨p, hp, h⟩ := bind_eq_ok_iff.1 h
    cases h
    exact .limit count (hresolve hp)
  | setOp op left right =>
    obtain ⟨l, hl, h⟩ := bind_eq_ok_iff.1 h
    obtain ⟨r, hr, h⟩ := bind_eq_ok_iff.1 h
    exact .setOp (hresolve hl) (hresolve hr) h
  | foreach input names rename =>
    obtain ⟨p, hp, h⟩ := bind_eq_ok_iff.1 h
    obtain ⟨indexes, -, h⟩ := bind_eq_ok_iff.1 h
    cases rename with
    | none => exact .foreach (hresolve hp) h
    | some columns =>
      obtain ⟨schema, -, h⟩ := bind_eq_ok_iff.1 h
      exact .foreach (hresolve hp) h
  | join left right =>
    rw [analyze, analyzeJoin] at h
    split at h
    · obtain ⟨l, hl, h⟩ := bind_eq_ok_iff.1 h
      obtain ⟨r, hr, h⟩ := bind_eq_ok_iff.1 h
      obtain ⟨on, -, h⟩ := bind_eq_ok_iff.1 h
      exact .join (hresolve hl) (hresolve hr) h
    · cases h

/-- **Analysis is typing.**  It accepts exactly the expressions that have a schema by the typing
rules, and gives them a query of just that schema; where columns are chosen without new names that
is the projection to the names.  Under bindings to built queries the query is built again. -/
theorem analyze_iff_hasSchema (b : Bindings) (x : Expr) :
    (∀ s, (∃ q, x.analyze b = .ok q ∧ q.schema = s) ↔ HasSchema b x s) ∧
      (∀ input names, x = .foreach input names none → ∀ q, x.analyze b = .ok q →
        ∃ p, b.get? input = some p ∧ p.schema.project names = .ok q.schema) ∧
      ((∀ name q, b.get? name = some q → q.Built) → ∀ q, x.analyze b = .ok q → q.Built) := by
  refine ⟨fun s => analyze_ok_iff, ?_, fun hb q h => built_of_analyze hb h⟩
  rintro input names rfl q h
  exact (analyze_ok_iff.1 ⟨q, h, rfl⟩).project

/-! ### A join of a relation with itself -/

/-- Edges between numbers. -/
def edgeTable : Query :=
  .table [⟨[.int 1, .int 2]⟩] ⟨[⟨"src", .int⟩, ⟨"dst", .int⟩], by decide⟩

/-- The edges under two names. -/
def edgeBindings : Bindings := (Dictionary.single "E" edgeTable).insert "F" edgeTable

/-- Paths of two edges, between which the edges have the given names. -/
def twoEdges (first second : String) : Expr :=
  .distinct (.join ⟨first, ["dst"]⟩ ⟨second, ["src"]⟩)

/-- Paths of two edges have a schema if the edges go by different names, and none otherwise.  The
ends of the edges have the schema of the projection. -/
theorem analyze_iff_hasSchema_twoEdges :
    (∀ name q, edgeBindings.get? name = some q → q.Built) ∧
      (∃ q p, (foreach "E" ["dst"] none).analyze edgeBindings = .ok q ∧
        edgeBindings.get? "E" = some p ∧ p.schema.project ["dst"] = .ok q.schema) ∧
      (∃ q s, (twoEdges "E" "F").analyze edgeBindings = .ok q ∧ q.Built ∧ q.schema = s ∧
        HasSchema edgeBindings (twoEdges "E" "F") s ∧
        s.columns = [⟨"E.src", .int⟩, ⟨"E.dst", .int⟩, ⟨"F.src", .int⟩, ⟨"F.dst", .int⟩]) ∧
      ∀ s, ¬HasSchema edgeBindings (twoEdges "E" "E") s := by
  have hbuilt : ∀ name q, edgeBindings.get? name = some q → q.Built := by
    intro name q h
    obtain rfl : q = edgeTable := by
      rw [edgeBindings, Dictionary.get?_insert, Dictionary.get?_single] at h
      split at h
      · exact (Option.some.inj h).symm
      · split at h
        · exact (Option.some.inj h).symm
        · cases h
    have hmake : Query.makeTable [⟨[.int 1, .int 2]⟩] edgeTable.schema = .ok edgeTable := rfl
    exact .table hmake
  refine ⟨hbuilt, ?_, ?_, fun s hs => ?_⟩
  · obtain ⟨-, hproject, -⟩ := analyze_iff_hasSchema edgeBindings (foreach "E" ["dst"] none)
    have hq : (foreach "E" ["dst"] none).analyze edgeBindings =
        .ok (.foreach edgeTable [1] ⟨[⟨"dst", .int⟩], by decide⟩) := by
      decide +kernel
    obtain ⟨p, hp, hschema⟩ := hproject "E" ["dst"] rfl _ hq
    exact ⟨_, p, hq, hp, hschema⟩
  · obtain ⟨htyped, -, hbuilds⟩ := analyze_iff_hasSchema edgeBindings (twoEdges "E" "F")
    have hcolumns : ((twoEdges "E" "F").analyze edgeBindings).map (·.schema.columns) =
        .ok [⟨"E.src", .int⟩, ⟨"E.dst", .int⟩, ⟨"F.src", .int⟩, ⟨"F.dst", .int⟩] := by
      decide +kernel
    cases hq : (twoEdges "E" "F").analyze edgeBindings with
    | error e =>
      rw [hq] at hcolumns
      cases hcolumns
    | ok q =>
      rw [hq] at hcolumns
      exact ⟨q, _, rfl, hbuilds hbuilt q hq, rfl, (htyped _).1 ⟨q, hq, rfl⟩,
        Except.ok.inj hcolumns⟩
  · obtain ⟨q, hq, -⟩ := ((analyze_iff_hasSchema edgeBindings (twoEdges "E" "E")).1 s).2 hs
    have hrefused : (twoEdges "E" "E").analyze edgeBindings =
        .error (.duplicateColumn "E.src") := by
      decide +kernel
    rw [hrefused] at hq
    cases hq

end Expr

end BagQuery
