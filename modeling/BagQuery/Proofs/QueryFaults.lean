import BagQuery.Proofs.Equivalence
import BagQuery.Proofs.ExpressionTyping

/-!
# What a query fails over

A query is made of leaves: files, given rows and stored relations (`Query.leaves`).  Whatever goes
wrong when it is drained goes wrong with one of them.  `Environment.Fault` lists what can be wrong
with a file of records, and a stored relation may be missing or have other columns.

* `Query.fault_of_drain`: a failure of a well-typed query is the fault of one of its leaves; so it
  is the fault of a file where the stored relations are as the query has them
  (`Query.fault_of_served`).
* `Error.OfAnalysis`, `Expr.ofAnalysis`: the failures of analysis are others, and an index that is
  looked up is never out of range.
* `Expr.leaves_of_analyze`: the leaves of an analyzed expression are its own and those of the
  queries that its names are bound to.
-/

namespace BagQuery

open Attempt
open BagQuery.Stream (Item given tuples lineItems joined selected firsts limited isSkipped atLine)

/-! ## Files of records -/

/-- What can be wrong with the records of a file. -/
inductive Environment.Fault (env : Environment) (path : String) (schema : Schema) : Error → Prop
  /-- The file cannot be opened. -/
  | refused {reason : String} (h : env.files (env.locate path) = .refused reason) :
      Fault env path schema (.load (env.locate path) reason)
  /-- The file can be opened and not read. -/
  | unreadable {reason : String} (h : env.files (env.locate path) = .unreadable reason) :
      Fault env path schema (.load (env.locate path) reason)
  /-- A line is not text. -/
  | notText {bytes : ByteArray} (h : env.files (env.locate path) = .content bytes)
      (hline : none ∈ Text.lines bytes) :
      Fault env path schema (.load (env.locate path) FileFault.notText.reason)
  /-- A line that holds a record is no tuple of the schema. -/
  | record {bytes : ByteArray} {before behind : List (Option String)} {line reason : String}
      (h : env.files (env.locate path) = .content bytes)
      (hline : Text.lines bytes = before ++ some line :: behind) (hskipped : isSkipped line = false)
      (hread : Record.read schema line = .error (.tupleType reason)) :
      Fault env path schema (.tupleType (env.locate path ++ ":"
        ++ Text.Numeral.ofNat (before.countP Option.isSome + 1) ++ ": " ++ reason))

namespace Record

theorem tupleType_of_readFields {fs : List (List Char)} {cs : List Column} {e : Error}
    (h : readFields fs cs = .error e) : ∃ reason, e = .tupleType reason := by
  induction fs generalizing cs with
  | nil => cases h
  | cons f fs ih =>
    cases cs with
    | nil => cases h
    | cons c cs =>
      rcases bind_eq_error_iff.1 h with h | ⟨a, -, h⟩
      · unfold readField at h
        split at h
        · cases h
        · cases h; exact ⟨_, rfl⟩
      · rcases bind_eq_error_iff.1 h with h | ⟨rest, -, h⟩
        · exact ih h
        · cases h

theorem tupleType_of_read {schema : Schema} {line : String} {e : Error}
    (h : read schema line = .error e) : ∃ reason, e = .tupleType reason := by
  unfold read at h
  dsimp only at h
  split at h
  · cases hf : readFields (fields line.toList) schema.columns with
    | error e' => rw [hf] at h; cases h; exact tupleType_of_readFields hf
    | ok atoms => rw [hf] at h; cases h
  · cases h; exact ⟨_, rfl⟩

end Record

namespace Stream

/-- A call is answered with the line: it holds a record, or is not text. -/
def answersCall : Option String → Bool
  | none => true
  | some line => !isSkipped line

/-- The failure that a line answers a call with, if the number of the line is taken to be `n`. -/
inductive LineFault (path : String) (schema : Schema) (n : Nat) : Option String → Error → Prop
  | notText : LineFault path schema n none (.load path FileFault.notText.reason)
  | record {line reason : String} (hskipped : isSkipped line = false)
      (hread : Record.read schema line = .error (.tupleType reason)) :
      LineFault path schema n (some line) (atLine path n (.tupleType reason))

/-- A failure that answers a call comes from the line for that call.  The lines that are text are
numbered. -/
theorem lineFault_of_lineItems {path : String} {schema : Schema} {k n : Nat}
    {lines : List (Option String)} {e : Error}
    (h : (lineItems path schema k lines)[n]? = some (.error e)) :
    ∃ before first behind, lines = before ++ first :: behind ∧ before.countP answersCall = n ∧
      LineFault path schema (k + before.countP Option.isSome + 1) first e := by
  induction lines generalizing k n with
  | nil => cases h
  | cons first lines ih =>
    -- a failure behind the first line is that of a line there
    have hbehind {k' n' : Nat} (h : (lineItems path schema k' lines)[n']? = some (.error e))
        (hk : k' = k + [first].countP Option.isSome) (hn : n' + [first].countP answersCall = n) :
        ∃ before first' behind, first :: lines = before ++ first' :: behind ∧
          before.countP answersCall = n ∧
          LineFault path schema (k + before.countP Option.isSome + 1) first' e := by
      obtain ⟨before, first', behind, rfl, rfl, hfault⟩ := ih h
      refine ⟨first :: before, first', behind, rfl, ?_, ?_⟩
      · rw [← List.singleton_append, List.countP_append, Nat.add_comm, hn]
      · rw [← List.singleton_append, List.countP_append, ← Nat.add_assoc, ← hk]
        exact hfault
    cases first with
    | none =>
      cases n with
      | zero =>
        cases h
        exact ⟨[], none, lines, rfl, rfl, .notText⟩
      | succ n => exact hbehind (List.getElem?_cons_succ.symm.trans h) rfl rfl
    | some line =>
      rw [lineItems] at h
      by_cases hskipped : isSkipped line = true
      · rw [if_pos hskipped, List.nil_append] at h
        exact hbehind h rfl (by simp [answersCall, hskipped])
      · rw [if_neg hskipped, List.singleton_append] at h
        rw [Bool.not_eq_true] at hskipped
        cases n with
        | zero =>
          cases hread : Record.read schema line with
          | ok t => rw [hread] at h; cases h
          | error e' =>
            obtain ⟨reason, rfl⟩ := Record.tupleType_of_read hread
            rw [hread] at h
            cases h
            exact ⟨[], some line, lines, rfl, rfl, .record hskipped hread⟩
        | succ n =>
          exact hbehind (List.getElem?_cons_succ.symm.trans h) rfl (by simp [answersCall, hskipped])

/-! ## Failures of items -/

/-- The failure is among the items, or there are no items for it. -/
def Failing (e : Error) : Except Error (List Item) → Prop
  | .error e' => e' = e
  | .ok items => .error e ∈ items

theorem error_mem_of_tuples {items : List Item} {e : Error} (h : tuples items = .error e) :
    .error e ∈ items := by
  induction items with
  | nil => cases h
  | cons item items ih =>
    cases item with
    | error e' => cases h; exact List.mem_cons_self
    | ok t =>
      rw [tuples] at h
      cases hts : tuples items with
      | ok ts => rw [hts] at h; cases h
      | error e' =>
        rw [hts] at h
        cases h
        exact List.mem_cons_of_mem _ (ih hts)

theorem not_error_mem_given {ts : List Tuple} {e : Error} : .error e ∉ given ts := by
  intro h
  obtain ⟨t, -, ht⟩ := List.mem_map.1 h
  cases ht

theorem error_mem_of_firsts {seen : List Tuple} {items : List Item} {e : Error}
    (h : .error e ∈ firsts seen items) : .error e ∈ items := by
  induction items generalizing seen with
  | nil => cases h
  | cons item items ih =>
    cases item with
    | error e' =>
      rcases List.mem_cons.1 h with h | h
      · exact h ▸ List.mem_cons_self
      · exact List.mem_cons_of_mem _ (ih h)
    | ok t =>
      rw [firsts] at h
      split at h
      · exact List.mem_cons_of_mem _ (ih h)
      · rcases List.mem_cons.1 h with h | h
        · cases h
        · exact List.mem_cons_of_mem _ (ih h)

theorem error_mem_of_limited {n : Nat} {items : List Item} {e : Error}
    (h : .error e ∈ limited n items) : .error e ∈ items := by
  fun_induction limited n items with
  | case1 => cases h
  | case2 => cases h
  | case3 n t items ih =>
    rcases List.mem_cons.1 h with h | h
    · cases h
    · exact List.mem_cons_of_mem _ (ih h)
  | case4 n e' items ih =>
    rcases List.mem_cons.1 h with h | h
    · exact h ▸ List.mem_cons_self
    · exact List.mem_cons_of_mem _ (ih h)

theorem error_mem_of_joined {on : List (Nat × Nat)} {right : List Tuple} {items : List Item}
    {e : Error} (h : .error e ∈ items.flatMap (joined on right)) : .error e ∈ items := by
  obtain ⟨item, hitem, h⟩ := List.mem_flatMap.1 h
  cases item with
  | ok t => exact absurd h not_error_mem_given
  | error e' => exact List.mem_singleton.1 h ▸ hitem

/-- The failure of a choice of columns that are not there. -/
def outside : Error := .invalidPlan "foreach index outside input tuple"

theorem error_mem_of_selected {columns : List Nat} {items : List Item} {e : Error}
    (h : .error e ∈ items.map (selected columns)) : .error e ∈ items ∨ e = outside := by
  obtain ⟨item, hitem, h⟩ := List.mem_map.1 h
  cases item with
  | error e' => exact Or.inl (h ▸ hitem)
  | ok t =>
    rw [selected] at h
    split at h
    · cases h
    · cases h; exact Or.inr rfl

/-- A failure behind a change of the items is one of the items, or comes from the change. -/
theorem Failing.of_bind {x : Except Error (List Item)} {F : List Item → Except Error (List Item)}
    {e : Error} (h : Failing e (x >>= F)) :
    Failing e x ∨ ∃ items, x = .ok items ∧ Failing e (F items) := by
  cases x with
  | error e' => exact Or.inl h
  | ok items => exact Or.inr ⟨items, rfl, h⟩

theorem Failing.of_tuples {items : List Item} {F : List Tuple → Except Error (List Item)}
    {e : Error} (h : Failing e (tuples items >>= F)) :
    .error e ∈ items ∨ ∃ ts, Failing e (F ts) := by
  cases hts : tuples items with
  | error e' =>
    rw [hts] at h
    have he : e' = e := h
    exact Or.inl (error_mem_of_tuples (he ▸ hts))
  | ok ts =>
    rw [hts] at h
    exact Or.inr ⟨ts, h⟩

/-- An operator that takes both inputs to their ends fails over one of them. -/
theorem Failing.of_drained {x y : Except Error (List Item)} {F : List Tuple → List Tuple → List Tuple}
    {e : Error} (h : Failing e (do
      let ls ← tuples (← x)
      let rs ← tuples (← y)
      return given (F ls rs))) : Failing e x ∨ Failing e y := by
  rcases Failing.of_bind h with h | ⟨left, rfl, h⟩
  · exact Or.inl h
  rcases Failing.of_tuples h with h | ⟨ls, h⟩
  · exact Or.inl h
  rcases Failing.of_bind h with h | ⟨right, rfl, h⟩
  · exact Or.inr h
  rcases Failing.of_tuples h with h | ⟨rs, h⟩
  · exact Or.inr h
  · exact absurd h not_error_mem_given

end Stream

/-! ## Leaves -/

namespace Query

open BagQuery.Stream (Failing)

/-- The files, rows and stored relations that a query is made of, from left to right. -/
def leaves : Query → List Query
  | load path schema => [load path schema]
  | table rows schema => [table rows schema]
  | scan key schema => [scan key schema]
  | join left right .. | setOp _ left right => left.leaves ++ right.leaves
  | foreach input .. | distinct input | limit input _ => input.leaves

/-- A file is at fault, or a stored relation is not there or has other columns. -/
inductive LeafFault (env : Environment) (store : Store) : Query → Error → Prop
  | load {path : String} {schema : Schema} {e : Error} (h : env.Fault path schema e) :
      LeafFault env store (.load path schema) e
  | scan {key : Key} {schema : Schema} {e : Error} (h : relationItems store key schema = .error e) :
      LeafFault env store (.scan key schema) e

/-- A leaf of the query is at fault, or a column is chosen that is not there. -/
def Fault (env : Environment) (store : Store) (q : Query) (e : Error) : Prop :=
  (∃ leaf ∈ q.leaves, LeafFault env store leaf e) ∨ e = Stream.outside

variable {env : Environment} {store : Store} {q q' : Query} {e : Error}

theorem Fault.mono (h : q.Fault env store e) (hleaves : q.leaves ⊆ q'.leaves) :
    q'.Fault env store e :=
  h.imp_left fun ⟨leaf, hleaf, hfault⟩ => ⟨leaf, hleaves hleaf, hfault⟩

/-- Queries know no iteration limit. -/
theorem Fault.not_iterationLimit {limit : Nat} : ¬q.Fault env store (.iterationLimit limit) := by
  rintro (⟨leaf, -, hfault⟩ | h)
  · cases hfault with
    | load h => cases h
    | scan h =>
      unfold relationItems at h
      split at h
      · cases h
      · split at h <;> cases h
  · cases h

theorem fault_of_fileItems {path : String} {schema : Schema}
    (h : Failing e (fileItems env path schema)) : env.Fault path schema e := by
  unfold fileItems at h
  split at h
  · next hfile => cases h; exact .refused hfile
  · next hfile => cases List.mem_singleton.1 h; exact .unreadable hfile
  · next hfile =>
    obtain ⟨n, hn⟩ := List.mem_iff_getElem?.1 h
    obtain ⟨before, first, behind, hlines, -, hfault⟩ := Stream.lineFault_of_lineItems hn
    cases hfault with
    | notText => exact .notText hfile (hlines ▸ List.mem_append_right _ List.mem_cons_self)
    | record hskipped hread =>
      rw [Nat.zero_add]
      exact .record hfile hlines hskipped hread

theorem eq_of_failing_relationItems {key : Key} {schema : Schema}
    (h : Failing e (relationItems store key schema)) : relationItems store key schema = .error e := by
  unfold relationItems at *
  split at h
  · exact congrArg Except.error h
  · split at h
    · exact absurd h Stream.not_error_mem_given
    · next hc =>
      rw [if_neg hc]
      exact congrArg Except.error h

/-- **A failure among the items of a query is the fault of a leaf**, or a column is chosen that is
not there. -/
theorem fault_of_items (h : Failing e (q.items env store)) : q.Fault env store e := by
  induction q with
  | load path schema =>
    exact Or.inl ⟨_, List.mem_singleton_self _, .load (fault_of_fileItems h)⟩
  | table rows schema => exact absurd h Stream.not_error_mem_given
  | scan key schema =>
    exact Or.inl ⟨_, List.mem_singleton_self _, .scan (eq_of_failing_relationItems h)⟩
  | join left right on schema ihl ihr =>
    have hleft : left.leaves ⊆ (join left right on schema).leaves := List.subset_append_left _ _
    have hright : right.leaves ⊆ (join left right on schema).leaves := List.subset_append_right _ _
    rcases Failing.of_bind h with h | ⟨ls, hls, h⟩
    · exact (ihl h).mono hleft
    rcases Failing.of_bind h with h | ⟨rs, hrs, h⟩
    · exact (ihr h).mono hright
    rcases Failing.of_tuples h with h | ⟨ts, h⟩
    · exact (ihr (hrs ▸ h)).mono hright
    · exact (ihl (hls ▸ Stream.error_mem_of_joined h)).mono hleft
  | foreach input columns schema ih =>
    rcases Failing.of_bind h with h | ⟨items, hitems, h⟩
    · exact ih h
    rcases Stream.error_mem_of_selected h with h | h
    · exact ih (hitems ▸ h)
    · exact Or.inr h
  | setOp op left right ihl ihr =>
    have hleft : left.leaves ⊆ (setOp op left right).leaves := List.subset_append_left _ _
    have hright : right.leaves ⊆ (setOp op left right).leaves := List.subset_append_right _ _
    cases op with
    | union =>
      rcases Failing.of_bind h with h | ⟨ls, hls, h⟩
      · exact (ihl h).mono hleft
      rcases Failing.of_bind h with h | ⟨rs, hrs, h⟩
      · exact (ihr h).mono hright
      rcases List.mem_append.1 h with h | h
      · exact (ihl (hls ▸ h)).mono hleft
      · exact (ihr (hrs ▸ h)).mono hright
    | intersect | diff =>
      rcases Failing.of_drained h with h | h
      · exact (ihl h).mono hleft
      · exact (ihr h).mono hright
  | distinct input ih =>
    rcases Failing.of_bind h with h | ⟨items, hitems, h⟩
    · exact ih h
    · exact ih (hitems ▸ Stream.error_mem_of_firsts h)
  | limit input count ih =>
    rcases Failing.of_bind h with h | ⟨items, hitems, h⟩
    · exact ih h
    · exact ih (hitems ▸ Stream.error_mem_of_limited h)

/-- A failure of the draining is one of the items. -/
theorem fault_of_drain (h : (q.drain env store).outcome = .error e) : q.Fault env store e := by
  refine fault_of_items ?_
  rw [outcome_drain] at h
  rcases bind_eq_error_iff.1 h with h | ⟨items, hitems, h⟩
  · rw [h]
    rfl
  · rw [hitems]
    exact Stream.error_mem_of_tuples h

/-! ### Served leaves -/

/-- A stored relation that the query reads is there and has columns of the same types. -/
def ServedBy (store : Store) : Query → Prop
  | scan key schema => ∃ r, store.get? key = some r ∧ schema.Compatible r.schema
  | _ => True

/-- **A well-typed query over the stored relations that it needs fails over a file only.** -/
theorem fault_of_served (hstore : store.WellTyped) (hq : q.WellTyped)
    (hserved : ∀ leaf ∈ q.leaves, leaf.ServedBy store) (h : (q.drain env store).outcome = .error e) :
    ∃ path schema, load path schema ∈ q.leaves ∧ env.Fault path schema e := by
  rcases fault_of_drain h with ⟨leaf, hleaf, hfault⟩ | rfl
  · cases hfault with
    | @load path schema _ hfile => exact ⟨path, schema, hleaf, hfile⟩
    | scan hscan =>
      obtain ⟨r, hr, hc⟩ := hserved _ hleaf
      rw [relationItems, hr] at hscan
      dsimp only at hscan
      rw [if_pos hc] at hscan
      cases hscan
  · -- the columns of a well-typed query are there
    have hgives := gives_drain env hstore hq
    rw [Access.Gives, h] at hgives
    exact absurd rfl (Error.not_invalidPlan hgives _)

end Query

/-! ## Analysis -/

/-- The error is one that analysis can find. -/
def Error.OfAnalysis : Error → Prop
  | incompatible .. | joinArity .. | joinTypes .. | noSuchColumn .. | duplicateColumn _
  | tupleType _ | unknownSymbol _ => True
  | _ => False

namespace Schema

theorem ofAnalysis_ofColumns (columns : List Column) :
    FailsIn Error.OfAnalysis (ofColumns columns) := by
  unfold ofColumns
  split
  · exact .error trivial
  · exact .ok _

theorem ofAnalysis_index (s : Schema) (name : String) : FailsIn Error.OfAnalysis (s.index name) := by
  unfold index
  split
  · exact .ok _
  · exact .error trivial

theorem ofAnalysis_checkCompatible (s t : Schema) :
    FailsIn Error.OfAnalysis (s.checkCompatible t) := by
  unfold checkCompatible
  split
  · exact .ok ()
  · exact .error trivial

theorem ofAnalysis_check (s : Schema) (t : Tuple) : FailsIn Error.OfAnalysis (s.check t) := by
  unfold check
  split
  · split
    · exact .ok ()
    · exact .error trivial
  · exact .error trivial

theorem ofAnalysis_join (left right : Schema) (leftLabel rightLabel : String) :
    FailsIn Error.OfAnalysis (join [left, right] [leftLabel, rightLabel]) := by
  rw [join, if_pos (by rfl)]
  exact ofAnalysis_ofColumns _

end Schema

theorem Expr.ofAnalysis_joinPairs (left right : Schema) (pairs : List (String × String)) :
    FailsIn Error.OfAnalysis (joinPairs left right pairs) :=
  .mapM fun pair _ => (left.ofAnalysis_index pair.1).bind fun _ _ =>
    (right.ofAnalysis_index pair.2).bind fun _ _ => .ok _

theorem Expr.columns_of_joinPairs {left right : Schema} {pairs : List (String × String)}
    {on : List (Nat × Nat)} (hon : joinPairs left right pairs = .ok on) {p : Nat × Nat}
    (hp : p ∈ on) : ∃ i j c d, p = (i, j + left.arity) ∧ left.columns[i]? = some c ∧
      right.columns[j]? = some d := by
  obtain ⟨⟨l, r⟩, -, hpair⟩ := exists_of_mem_mapM hon hp
  obtain ⟨i, hi, hpair⟩ := bind_eq_ok_iff.1 hpair
  obtain ⟨j, hj, hpair⟩ := bind_eq_ok_iff.1 hpair
  cases hpair
  obtain ⟨c, hc, -⟩ := Schema.index_eq_ok_iff.1 hi
  obtain ⟨d, hd, -⟩ := Schema.index_eq_ok_iff.1 hj
  exact ⟨i, j, c, d, rfl, hc, hd⟩

namespace Query

/-- The pairs of a join are looked up, so no index is outside of its side. -/
theorem ofAnalysis_makeJoin {left right : Query} {pairs : List (String × String)}
    {on : List (Nat × Nat)} (hon : Expr.joinPairs left.schema right.schema pairs = .ok on)
    (leftLabel rightLabel : String) :
    FailsIn Error.OfAnalysis (makeJoin left right on leftLabel rightLabel) := by
  refine (Schema.ofAnalysis_join _ _ _ _).bind fun schema hschema => ?_
  refine (FailsIn.forM fun pair hpair => ?_).bind fun _ _ => .ok _
  obtain ⟨i, j, c, d, rfl, hc, hd⟩ := Expr.columns_of_joinPairs hon hpair
  rw [checkPair_eq (columns_of_join.1 hschema) hc hd]
  split
  · exact .ok ()
  · exact .error trivial

/-- So are the columns of a choice. -/
theorem ofAnalysis_makeForeach {input : Query} {names : List String} {indexes : List Nat}
    (hindexes : names.mapM input.schema.index = .ok indexes) (rename : Option Schema) :
    FailsIn Error.OfAnalysis (makeForeach input indexes rename) := by
  have hcolumn : ∀ i ∈ indexes, FailsIn Error.OfAnalysis (columnAt input.schema i) := by
    intro i hi
    obtain ⟨name, -, hname⟩ := exists_of_mem_mapM hindexes hi
    obtain ⟨c, hc, -⟩ := Schema.index_eq_ok_iff.1 hname
    rw [columnAt_eq_ok_iff.2 hc]
    exact .ok c
  refine (FailsIn.mapM hcolumn).bind fun columns _ => ?_
  cases rename with
  | none => exact (Schema.ofAnalysis_ofColumns _).bind fun _ _ => .ok _
  | some rename =>
    dsimp only
    split
    · exact .ok _
    · exact .error trivial

theorem ofAnalysis_makeTable (rows : List Tuple) (schema : Schema) :
    FailsIn Error.OfAnalysis (makeTable rows schema) :=
  (FailsIn.forM fun row _ => schema.ofAnalysis_check row).bind fun _ _ => .ok _

theorem ofAnalysis_makeSetOp (op : SetOp) (left right : Query) :
    FailsIn Error.OfAnalysis (makeSetOp op left right) :=
  (left.schema.ofAnalysis_checkCompatible right.schema).bind fun _ _ => .ok _

end Query

namespace Expr

theorem ofAnalysis_resolve (b : Bindings) (name : String) :
    FailsIn Error.OfAnalysis (b.resolve name) := by
  unfold Bindings.resolve
  split
  · exact .ok _
  · exact .error trivial

/-- **Analysis finds what is wrong with an expression, and never makes a plan that is.** -/
theorem ofAnalysis_analyze (b : Bindings) (x : Expr) :
    FailsIn Error.OfAnalysis (x.analyze b) := by
  induction x with
  | load path columns => exact (Schema.ofAnalysis_ofColumns _).bind fun _ _ => .ok _
  | table rows columns =>
    exact (Schema.ofAnalysis_ofColumns _).bind fun schema _ => Query.ofAnalysis_makeTable rows schema
  | reference name => exact ofAnalysis_resolve b name
  | distinct input ih => exact ih.bind fun _ _ => .ok _
  | limit input count => exact (ofAnalysis_resolve b input).bind fun _ _ => .ok _
  | setOp op left right =>
    exact (ofAnalysis_resolve b left).bind fun l _ => (ofAnalysis_resolve b right).bind fun r _ =>
      Query.ofAnalysis_makeSetOp op l r
  | foreach input columns rename =>
    refine (ofAnalysis_resolve b input).bind fun q _ => ?_
    refine (FailsIn.mapM fun name _ => q.schema.ofAnalysis_index name).bind fun indexes h => ?_
    cases rename with
    | none => exact Query.ofAnalysis_makeForeach h none
    | some rename =>
      exact (Schema.ofAnalysis_ofColumns _).bind fun _ _ => Query.ofAnalysis_makeForeach h _
  | join left right =>
    unfold analyze analyzeJoin
    split
    · refine (ofAnalysis_resolve b left.name).bind fun l _ => ?_
      refine (ofAnalysis_resolve b right.name).bind fun r _ => ?_
      exact (ofAnalysis_joinPairs _ _ _).bind fun on hon => Query.ofAnalysis_makeJoin hon _ _
    · exact .error trivial

/-- **The leaves of an analyzed expression** are its files, its rows, and the leaves of the queries
that its names are bound to. -/
theorem leaves_of_analyze {b : Bindings} {P : Query → Prop} {x : Expr} {q : Query}
    (hbound : ∀ name q, b.get? name = some q → ∀ leaf ∈ q.leaves, P leaf)
    (htable : ∀ rows schema, P (.table rows schema))
    (hload : ∀ path ∈ x.paths, ∀ schema, P (.load path schema)) (h : x.analyze b = .ok q) :
    ∀ leaf ∈ q.leaves, P leaf := by
  have hresolve {name : String} {p : Query} (hp : b.resolve name = .ok p) :
      ∀ leaf ∈ p.leaves, P leaf := hbound name p (resolve_eq_ok_iff.1 hp)
  induction x generalizing q with
  | load path columns =>
    obtain ⟨schema, -, h⟩ := bind_eq_ok_iff.1 h
    cases h
    exact List.forall_mem_singleton.2 (hload path List.mem_cons_self schema)
  | table rows columns =>
    obtain ⟨schema, -, h⟩ := bind_eq_ok_iff.1 h
    obtain ⟨-, rfl⟩ := Query.makeTable_eq_ok_iff.1 h
    exact List.forall_mem_singleton.2 (htable rows schema)
  | reference name => exact hresolve h
  | distinct input ih =>
    obtain ⟨p, hp, h⟩ := bind_eq_ok_iff.1 h
    cases h
    show ∀ leaf ∈ p.leaves, P leaf
    exact ih hload hp
  | limit input count =>
    obtain ⟨p, hp, h⟩ := bind_eq_ok_iff.1 h
    cases h
    show ∀ leaf ∈ p.leaves, P leaf
    exact hresolve hp
  | setOp op left right =>
    obtain ⟨l, hl, h⟩ := bind_eq_ok_iff.1 h
    obtain ⟨r, hr, h⟩ := bind_eq_ok_iff.1 h
    obtain ⟨-, rfl⟩ := Query.makeSetOp_eq_ok_iff.1 h
    exact List.forall_mem_append.2 ⟨hresolve hl, hresolve hr⟩
  | foreach input columns rename =>
    obtain ⟨p, hp, h⟩ := bind_eq_ok_iff.1 h
    obtain ⟨indexes, -, h⟩ := bind_eq_ok_iff.1 h
    cases rename with
    | none =>
      obtain ⟨schema, -, rfl⟩ := Query.makeForeach_eq_ok h
      show ∀ leaf ∈ p.leaves, P leaf
      exact hresolve hp
    | some columns =>
      obtain ⟨schema, -, h⟩ := bind_eq_ok_iff.1 h
      obtain ⟨schema, -, rfl⟩ := Query.makeForeach_eq_ok h
      show ∀ leaf ∈ p.leaves, P leaf
      exact hresolve hp
  | join left right =>
    unfold analyze analyzeJoin at h
    split at h
    · obtain ⟨l, hl, h⟩ := bind_eq_ok_iff.1 h
      obtain ⟨r, hr, h⟩ := bind_eq_ok_iff.1 h
      obtain ⟨on, -, h⟩ := bind_eq_ok_iff.1 h
      obtain ⟨schema, -, rfl⟩ := Query.makeJoin_eq_ok h
      exact List.forall_mem_append.2 ⟨hresolve hl, hresolve hr⟩
    · cases h

end Expr

end BagQuery
