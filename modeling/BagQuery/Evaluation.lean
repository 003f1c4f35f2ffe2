import BagQuery.Plan.Basic
import BagQuery.Stream

/-!
# Evaluation

Opening a query builds its stream: files are opened, stored relations are read, the right input of
a join and both inputs of an intersection or difference are drained, always left before right.
The first failure among these is the failure of the evaluation; later ones show when the stream
is pulled.

`Access` is an outcome with the number of stored relations that were read for it, which counts
also when the outcome is a failure.  A `Database` is a store with its traffic so far, and
`Database.evaluate` evaluates a plan on it: a write drains its query and changes the store, a
query leaves the store as it is.
-/

namespace BagQuery

/-- The files of a program and the directory that relative paths start from. -/
structure Environment where
  files : Files
  dataDir : Option String

namespace Environment

/-- The path under which a file is opened. -/
def locate (env : Environment) (path : String) : String :=
  match env.dataDir with
  | some dir => Path.join dir path
  | none => path

/-- Opens a file of records. -/
def openFile (env : Environment) (path : String) (schema : Schema) : Except Error Stream :=
  let path := env.locate path
  match env.files path with
  | .refused reason => .error (.load path reason)
  | .unreadable reason => .ok (.unreadable (.load path reason))
  | .content bytes => .ok (.load path schema 0 (Text.lines bytes))

end Environment

/-- An outcome, and how many stored relations were read for it. -/
structure Access (α : Type) where
  scans : Nat
  outcome : Except Error α

namespace Access

/-- An outcome for which no stored relation was read. -/
def of {α : Type} (outcome : Except Error α) : Access α := ⟨0, outcome⟩

instance : Monad Access where
  pure a := ⟨0, .ok a⟩
  bind x f :=
    match x.outcome with
    | .error e => ⟨x.scans, .error e⟩
    | .ok a => ⟨x.scans + (f a).scans, (f a).outcome⟩

theorem outcome_pure {α : Type} (a : α) : (pure a : Access α).outcome = .ok a := rfl

theorem outcome_bind {α β : Type} (x : Access α) (f : α → Access β) :
    (x >>= f).outcome = x.outcome >>= fun a => (f a).outcome := by
  cases h : x.outcome <;> simp [bind, h, Except.bind]

end Access

namespace Query

/-- Reads a stored relation whose schema still fits. -/
def readRelation (store : Store) (key : Key) (schema : Schema) : Access Stream :=
  match store.relation key with
  | .error e => .of (.error e)
  | .ok r =>
    match schema.checkCompatible r.schema with
    | .error e => .of (.error e)
    | .ok () => ⟨1, .ok (.scan r.bag.elements)⟩

/-- The stream that replays some tuples. -/
def replay (tuples : List Tuple) : Stream := .rows tuples tuples

/-- What an intersection or difference makes of its drained inputs. -/
def combineDrained (f : Bag → Bag → Bag) (left right : List Tuple) : Stream :=
  replay (f (.ofList left) (.ofList right)).elements

/-- Builds the stream of a query. -/
def openStream (env : Environment) (store : Store) : Query → Access Stream
  | load path schema => .of (env.openFile path schema)
  | table rows _ => pure (replay rows)
  | scan key schema => readRelation store key schema
  | join left right on _ => do
    let left ← openStream env store left
    let right ← openStream env store right
    return .join left (← .of right.drain) on none
  | foreach input columns _ => do return .foreach (← openStream env store input) columns
  | setOp .union left right => do
    let left ← openStream env store left
    let right ← openStream env store right
    return .union left right false
  | setOp .intersect left right => do
    let left ← openStream env store left
    let left ← .of left.drain
    let right ← openStream env store right
    let right ← .of right.drain
    return combineDrained .intersection left right
  | setOp .diff left right => do
    let left ← openStream env store left
    let left ← .of left.drain
    let right ← openStream env store right
    let right ← .of right.drain
    return combineDrained .difference left right
  | distinct input => do return .distinct (← openStream env store input) []
  | limit input count => do return .limit (← openStream env store input) count 0

/-- Builds the stream of a query and drains it. -/
def drain (env : Environment) (store : Store) (q : Query) : Access (List Tuple) := do
  let s ← q.openStream env store
  .of s.drain

end Query

/-- A stream and the schema of its tuples. -/
structure Result where
  schema : Schema
  stream : Stream

/-- The result of a write. -/
def Result.none : Result := ⟨.empty, .rows [] []⟩

/-- A store and its traffic. -/
structure Database where
  store : Store
  traffic : Traffic

namespace Database

/-- An empty store that was never used. -/
def fresh : Database := ⟨.empty, .none⟩

/-- Counts relations that were read. -/
def scanned (db : Database) (n : Nat) : Database :=
  { db with traffic.scans := db.traffic.scans + n }

/-- Counts a write. -/
def written (db : Database) : Database :=
  { db with traffic.writes := db.traffic.writes + 1 }

/-- Removes a relation. -/
def remove (db : Database) (key : Key) : Database :=
  ⟨db.store.erase key, { db.traffic with removes := db.traffic.removes + 1 }⟩

/-- Adds tuples to a relation.  A refused write counts too. -/
def insert (db : Database) (key : Key) (schema : Schema) (bag : Bag) :
    Except Error Unit × Database :=
  match Store.add db.store key schema bag with
  | .ok store => (.ok (), { db.written with store })
  | .error e => (.error e, db.written)

/-- Puts tuples in place of a relation. -/
def replace (db : Database) (key : Key) (schema : Schema) (bag : Bag) : Database :=
  { db.written with store := Store.replace db.store key schema bag }

/-- Drains a query. -/
def drain (env : Environment) (db : Database) (q : Query) :
    Except Error (List Tuple) × Database :=
  let access := q.drain env db.store
  (access.outcome, db.scanned access.scans)

/-- Evaluates a plan. -/
def evaluate (env : Environment) (db : Database) : Plan → Except Error Result × Database
  | .query q =>
    let access := q.openStream env db.store
    (access.outcome.map (Result.mk q.schema), db.scanned access.scans)
  | .insert key input =>
    match db.drain env input with
    | (.error e, db) => (.error e, db)
    | (.ok tuples, db) =>
      let (outcome, db) := db.insert key input.schema (.ofList tuples)
      (outcome.map fun () => .none, db)
  | .replace key input =>
    match db.drain env input with
    | (.error e, db) => (.error e, db)
    | (.ok tuples, db) => (.ok .none, db.replace key input.schema (.ofList tuples))

end Database

end BagQuery
