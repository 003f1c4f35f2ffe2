import BagQuery.Evaluation
import BagQuery.Proofs.BagElements
import BagQuery.Proofs.StreamItems

/-!
# What a query means

`Query.items` says what a query gives without any machine: for each operator, a list made of the
lists of its inputs.  A list holds failures next to tuples, since a stream can be asked on after
a failure.  Where a query cannot even be opened there is no list but the failure of the opening.

`outcome_openStream` says that opening a query ends in the same way, with a stream that has
exactly that list left.  So evaluation computes the meaning of a query: it fails where the meaning
is a failure, and otherwise the calls of `next` answer with the list.
-/

namespace BagQuery

open BagQuery.Stream (Item given tuples lineItems joined selected firsts limited)

namespace Query

/-- The paths of the files that a query reads. -/
def loads : Query → List String
  | load path _ => [path]
  | table .. | scan .. => []
  | join left right .. | setOp _ left right => left.loads ++ right.loads
  | foreach input .. | distinct input | limit input _ => input.loads

/-- The items of a file.  One that opens but cannot be read has its failure as its only item. -/
def fileItems (env : Environment) (path : String) (schema : Schema) : Except Error (List Item) :=
  match env.files (env.locate path) with
  | .refused reason => .error (.load (env.locate path) reason)
  | .unreadable reason => .ok [.error (.load (env.locate path) reason)]
  | .content bytes => .ok (lineItems (env.locate path) schema 0 (Text.lines bytes))

/-- The items of a stored relation. -/
def relationItems (store : Store) (key : Key) (schema : Schema) : Except Error (List Item) :=
  match store.get? key with
  | none => .error (.unknownRelation key.render)
  | some r =>
    if schema.Compatible r.schema then .ok (given r.bag.elements)
    else .error (.incompatible schema.render r.schema.render)

/-- What a query gives.

* A join pairs each tuple of the left input, in order, with the tuples of the right input that
  agree with it; failures of the left input stay where they are.
* A union is one list behind the other.
* An intersection holds a tuple as often as both inputs do, a difference as often as the left
  input does more than the right one; both are in the order of the tuples.
* The right input of a join and both inputs of an intersection or difference are taken to their
  ends at once, so the first failure in them is a failure of the whole. -/
def items (env : Environment) (store : Store) : Query → Except Error (List Item)
  | load path schema => fileItems env path schema
  | table rows _ => .ok (given rows)
  | scan key schema => relationItems store key schema
  | join left right on _ => do
    let ls ← items env store left
    let rs ← items env store right
    let rs ← tuples rs
    return ls.flatMap (joined on rs)
  | foreach input columns _ => do return (← items env store input).map (selected columns)
  | setOp .union left right => do return (← items env store left) ++ (← items env store right)
  | setOp .intersect left right => do
    let ls ← tuples (← items env store left)
    let rs ← tuples (← items env store right)
    return given (Tuple.sorted (ls.bagInter rs))
  | setOp .diff left right => do
    let ls ← tuples (← items env store left)
    let rs ← tuples (← items env store right)
    return given (Tuple.sorted (ls.diff rs))
  | distinct input => do return firsts [] (← items env store input)
  | limit input count => do return limited count (← items env store input)

/-! ## Opening -/

theorem items_openFile (env : Environment) (path : String) (schema : Schema) :
    (env.openFile path schema).map Stream.items = fileItems env path schema := by
  simp only [Environment.openFile, fileItems]
  cases env.files (env.locate path) <;> rfl

theorem items_readRelation (store : Store) (key : Key) (schema : Schema) :
    (readRelation store key schema).outcome.map Stream.items = relationItems store key schema := by
  unfold readRelation relationItems Store.relation
  cases h : store.get? key with
  | none => rfl
  | some r =>
    simp only [Schema.checkCompatible]
    by_cases hc : schema.Compatible r.schema
    · simp only [hc, if_true]; rfl
    · simp only [hc, if_false]; rfl

theorem items_combineDrained_intersection (ls rs : List Tuple) :
    (combineDrained .intersection ls rs).items = given (Tuple.sorted (ls.bagInter rs)) :=
  congrArg given (Bag.elements_intersection ls rs)

theorem items_combineDrained_difference (ls rs : List Tuple) :
    (combineDrained .difference ls rs).items = given (Tuple.sorted (ls.diff rs)) :=
  congrArg given (Bag.elements_difference ls rs)

/-- The two ways in which opening can end, and what they say about the items. -/
theorem open_cases {env : Environment} {store : Store} {q : Query}
    (h : (q.openStream env store).outcome.map Stream.items = q.items env store) :
    (∃ e, (q.openStream env store).outcome = .error e ∧ q.items env store = .error e) ∨
      ∃ s : Stream, (q.openStream env store).outcome = .ok s ∧ q.items env store = .ok s.items := by
  cases hs : (q.openStream env store).outcome with
  | error e => exact Or.inl ⟨e, rfl, by rw [← h, hs]; rfl⟩
  | ok s => exact Or.inr ⟨s, rfl, by rw [← h, hs]; rfl⟩

/-- An operator that makes a stream of the stream of its input. -/
theorem open_unary {env : Environment} {store : Store} {q : Query} {F : Stream → Stream}
    {G : List Item → List Item} (hFG : ∀ s, (F s).items = G s.items)
    (h : (q.openStream env store).outcome.map Stream.items = q.items env store) :
    (do return F (← q.openStream env store) : Access Stream).outcome.map Stream.items
      = do return G (← q.items env store) := by
  obtain ⟨e, hs, hi⟩ | ⟨s, hs, hi⟩ := open_cases h
  · simp only [Access.outcome_bind, hs, hi]; rfl
  · simp only [Access.outcome_bind, hs, hi]
    exact congrArg Except.ok (hFG s)

/-- An operator that drains both inputs as it is opened. -/
theorem open_drained {env : Environment} {store : Store} {left right : Query}
    {F : List Tuple → List Tuple → Stream} {G : List Tuple → List Tuple → List Item}
    (hFG : ∀ ls rs, (F ls rs).items = G ls rs)
    (hl : (left.openStream env store).outcome.map Stream.items = left.items env store)
    (hr : (right.openStream env store).outcome.map Stream.items = right.items env store) :
    (do
      let l ← left.openStream env store
      let l ← Access.of l.drain
      let r ← right.openStream env store
      let r ← Access.of r.drain
      return F l r : Access Stream).outcome.map Stream.items
      = do
        let ls ← tuples (← left.items env store)
        let rs ← tuples (← right.items env store)
        return G ls rs := by
  obtain ⟨e, hl, hli⟩ | ⟨l, hl, hli⟩ := open_cases hl
  · simp only [Access.outcome_bind, hl, hli]; rfl
  simp only [Access.outcome_bind, hl, hli]
  show Except.map Stream.items (l.drain >>= _) = tuples l.items >>= _
  rw [Stream.drain_eq_tuples]
  cases tuples l.items with
  | error e => rfl
  | ok ls =>
    obtain ⟨e, hr, hri⟩ | ⟨r, hr, hri⟩ := open_cases hr
    · simp only [hr, hri]; rfl
    simp only [hr, hri]
    show Except.map Stream.items (r.drain >>= _) = tuples r.items >>= _
    rw [Stream.drain_eq_tuples]
    cases tuples r.items with
    | error e => rfl
    | ok rs => exact congrArg Except.ok (hFG ls rs)

/-- **Opening a query ends as its meaning does, with a stream that has the items of the query
left.** -/
theorem outcome_openStream (env : Environment) (store : Store) (q : Query) :
    (q.openStream env store).outcome.map Stream.items = q.items env store := by
  induction q with
  | load path schema => exact items_openFile env path schema
  | table rows schema => rfl
  | scan key schema => exact items_readRelation store key schema
  | join left right on schema ihl ihr =>
    rw [openStream, items]
    obtain ⟨e, hl, hli⟩ | ⟨l, hl, hli⟩ := open_cases ihl
    · simp only [Access.outcome_bind, hl, hli]; rfl
    obtain ⟨e, hr, hri⟩ | ⟨r, hr, hri⟩ := open_cases ihr
    · simp only [Access.outcome_bind, hl, hli, hr, hri]; rfl
    simp only [Access.outcome_bind, hl, hli, hr, hri]
    show Except.map Stream.items (r.drain >>= _) = tuples r.items >>= _
    rw [Stream.drain_eq_tuples]
    cases tuples r.items <;> rfl
  | foreach input columns schema ih => exact open_unary (fun _ => rfl) ih
  | setOp op left right ihl ihr =>
    cases op with
    | union =>
      rw [openStream, items]
      obtain ⟨e, hl, hli⟩ | ⟨l, hl, hli⟩ := open_cases ihl
      · simp only [Access.outcome_bind, hl, hli]; rfl
      obtain ⟨e, hr, hri⟩ | ⟨r, hr, hri⟩ := open_cases ihr
      · simp only [Access.outcome_bind, hl, hli, hr, hri]; rfl
      · simp only [Access.outcome_bind, hl, hli, hr, hri]; rfl
    | intersect => exact open_drained items_combineDrained_intersection ihl ihr
    | diff => exact open_drained items_combineDrained_difference ihl ihr
  | distinct input ih => exact open_unary (fun _ => rfl) ih
  | limit input count ih => exact open_unary (fun _ => rfl) ih

end Query

namespace Access

theorem outcome_bind_eq_ok {α β : Type} {x : Access α} {f : α → Access β} {b : β} :
    (x >>= f).outcome = .ok b ↔ ∃ a, x.outcome = .ok a ∧ (f a).outcome = .ok b := by
  rw [outcome_bind]
  cases x.outcome with
  | error e =>
    constructor
    · intro h; cases h
    · rintro ⟨a, ha, -⟩; cases ha
  | ok a =>
    constructor
    · intro h; exact ⟨a, rfl, h⟩
    · rintro ⟨a', ha, h⟩; cases ha; exact h

end Access

namespace Query

/-! ## Evaluation -/

/-- Every file that the query reads can be read if it can be opened. -/
def RegularFiles (env : Environment) (q : Query) : Prop :=
  ∀ path ∈ q.loads, ∀ reason, env.files (env.locate path) ≠ .unreadable reason

/-- A file opens as its lines, unless it cannot be read. -/
theorem opened_file {env : Environment} {path : String} {schema : Schema} {s : Stream}
    (hs : env.openFile path schema = .ok s) :
    (∃ reason, env.files (env.locate path) = .unreadable reason ∧
        s = .unreadable (.load (env.locate path) reason)) ∨
      ∃ bytes, env.files (env.locate path) = .content bytes ∧
        s = .load (env.locate path) schema 0 (Text.lines bytes) := by
  simp only [Environment.openFile] at hs
  cases hfile : env.files (env.locate path) with
  | refused reason => rw [hfile] at hs; cases hs
  | unreadable reason => rw [hfile] at hs; cases hs; exact Or.inl ⟨reason, rfl, rfl⟩
  | content bytes => rw [hfile] at hs; cases hs; exact Or.inr ⟨bytes, rfl, rfl⟩

/-- A stored relation opens as its tuples. -/
theorem opened_relation {store : Store} {key : Key} {schema : Schema} {s : Stream}
    (hs : (readRelation store key schema).outcome = .ok s) : ∃ left, s = .scan left := by
  unfold readRelation at hs
  split at hs
  · cases hs
  · split at hs
    · cases hs
    · cases hs; exact ⟨_, rfl⟩

theorem regular_openStream {env : Environment} {store : Store} {q : Query} {s : Stream}
    (h : q.RegularFiles env) (hs : (q.openStream env store).outcome = .ok s) : s.Regular := by
  induction q generalizing s with
  | load path schema =>
    obtain ⟨reason, hfile, -⟩ | ⟨bytes, -, rfl⟩ := opened_file hs
    · exact absurd hfile (h path (List.mem_singleton_self path) reason)
    · trivial
  | table rows schema => cases hs; trivial
  | scan key schema =>
    obtain ⟨left, rfl⟩ := opened_relation hs
    trivial
  | join left right on schema ihl ihr =>
    have hl : left.RegularFiles env := fun p hp => h p (List.mem_append_left _ hp)
    simp only [openStream, Access.outcome_bind_eq_ok] at hs
    obtain ⟨l, hls, r, -, rs, -, hs⟩ := hs
    cases hs
    have := ihl hl hls
    exact this
  | foreach input columns schema ih =>
    simp only [openStream, Access.outcome_bind_eq_ok] at hs
    obtain ⟨i, hi, hs⟩ := hs
    cases hs
    have := ih h hi
    exact this
  | setOp op left right ihl ihr =>
    have hl : left.RegularFiles env := fun p hp => h p (List.mem_append_left _ hp)
    have hr : right.RegularFiles env := fun p hp => h p (List.mem_append_right _ hp)
    cases op with
    | union =>
      simp only [openStream, Access.outcome_bind_eq_ok] at hs
      obtain ⟨l, hls, r, hrs, hs⟩ := hs
      cases hs
      exact ⟨ihl hl hls, ihr hr hrs⟩
    | intersect | diff =>
      simp only [openStream, Access.outcome_bind_eq_ok] at hs
      obtain ⟨l, -, ls, -, r, -, rs, -, hs⟩ := hs
      cases hs
      trivial
  | distinct input ih =>
    simp only [openStream, Access.outcome_bind_eq_ok] at hs
    obtain ⟨i, hi, hs⟩ := hs
    cases hs
    have := ih h hi
    exact this
  | limit input count ih =>
    simp only [openStream, Access.outcome_bind_eq_ok] at hs
    obtain ⟨i, hi, hs⟩ := hs
    cases hs
    have := ih h hi
    exact this

/-- **Evaluation computes the meaning of a query**: it fails as the meaning does, and otherwise
gives a stream whose calls answer with the items in order and with nothing behind them. -/
theorem evaluate_computes_items (env : Environment) (db : Database) (q : Query)
    (h : q.RegularFiles env) :
    match q.items env db.store with
    | .error e => (db.evaluate env (.query q)).1 = .error e
    | .ok items => ∃ stream : Stream, (db.evaluate env (.query q)).1 = .ok ⟨q.schema, stream⟩ ∧
        ∀ n, stream.answer n = items[n]? := by
  obtain ⟨e, hs, hi⟩ | ⟨s, hs, hi⟩ := open_cases (outcome_openStream env db.store q)
  · rw [hi]
    show Except.map _ (q.openStream env db.store).outcome = _
    rw [hs]
    rfl
  · rw [hi]
    refine ⟨s, ?_, Stream.answer_eq_getElem? (regular_openStream h hs)⟩
    show Except.map _ (q.openStream env db.store).outcome = _
    rw [hs]
    rfl

/-- A load is a stream of the lines of its file. -/
theorem evaluate_load {env : Environment} {path : String} {bytes : ByteArray}
    (h : env.files (env.locate path) = .content bytes) (db : Database) (schema : Schema) :
    (db.evaluate env (.query (.load path schema))).1
      = .ok ⟨schema, .load (env.locate path) schema 0 (Text.lines bytes)⟩ := by
  show Except.map _ (env.openFile path schema) = _
  rw [Environment.openFile]
  simp only [h]
  rfl

/-! ### A file with bad lines -/

/-- The schema of one integer. -/
def numbers : Schema := ⟨[⟨"n", .int⟩], by decide⟩

/-- A single file `f` with the lines `1`, `#`, `x`, a line that is not text, and `2`. -/
def spoiltFile : Environment where
  files path :=
    if path = "f" then .content ⟨#[49, 10, 35, 10, 120, 10, 255, 10, 50, 10]⟩
    else .refused FileFault.notFound.reason
  dataDir := none

/-- The file and one more row behind it, as far as the second tuple. -/
def spoiltQuery : Query :=
  .limit (.setOp .union (.load "f" numbers) (.table [⟨[.int 7]⟩] numbers)) 2

theorem items_spoiltQuery : spoiltQuery.items spoiltFile .empty = .ok
    [.ok ⟨[.int 1]⟩, .error (.tupleType "f:3: 'x' is not a valid int for column 'n'"),
      .error (.load "f" "stream did not contain valid UTF-8"), .ok ⟨[.int 2]⟩] := by
  decide +kernel

theorem evaluate_computes_items_spoiltFile :
    spoiltQuery.RegularFiles spoiltFile ∧
      ∃ stream : Stream,
        (Database.fresh.evaluate spoiltFile (.query spoiltQuery)).1 = .ok ⟨numbers, stream⟩ ∧
        ∀ n, stream.answer n =
          [.ok ⟨[.int 1]⟩, .error (.tupleType "f:3: 'x' is not a valid int for column 'n'"),
            .error (.load "f" "stream did not contain valid UTF-8"), .ok ⟨[.int 2]⟩][n]? := by
  have hreg : spoiltQuery.RegularFiles spoiltFile := by
    intro path hpath reason
    obtain rfl : path = "f" := by simpa [spoiltQuery, loads] using hpath
    exact fun h => nomatch h
  have h := evaluate_computes_items spoiltFile .fresh spoiltQuery hreg
  rw [show Database.fresh.store = .empty from rfl, items_spoiltQuery] at h
  exact ⟨hreg, h⟩

end Query

end BagQuery
