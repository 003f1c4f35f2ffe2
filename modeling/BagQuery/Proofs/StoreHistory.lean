import BagQuery.Proofs.WriteLog
import BagQuery.Proofs.BagElements
import Mathlib.Algebra.Order.Group.Multiset
import Mathlib.Data.List.DropRight

/-!
# The history of a stored relation

Plans are evaluated and relations removed on a database, one operation after the other
(`Operation.runAll`).  What is stored under a key in the end can be read off a log of the
operations that succeeded (`Operation.log`), in which a write stands with the tuples that its
query gave on the store just before it.

* `Operation.run_store`: an operation does to the store what its entry in the log says, and
  nothing if it has none.
* `Operation.runAll_store`: so the log, replayed under one key, gives the relation of the key.
* `Write.recorded_replay`: a replay starts over with each replacement and removal, and adds up the
  insertions behind the last of them (`Recorded`).

A write may well read the key that it writes, since its query is drained before the store changes.
-/

namespace BagQuery

open Attempt

/-! ## Writes -/

/-- What an operation did to the relation of a key. -/
inductive Write where
  | insert (key : Key) (schema : Schema) (ts : List Tuple)
  | replace (key : Key) (schema : Schema) (ts : List Tuple)
  | remove (key : Key)
deriving DecidableEq

namespace Write

def key : Write → Key
  | insert key .. | replace key .. | remove key => key

def isInsert : Write → Bool
  | insert .. => true
  | replace .. | remove _ => false

/-- The tuples that were written. -/
def tuples : Write → Multiset Tuple
  | insert _ _ ts | replace _ _ ts => ts
  | remove _ => 0

/-- The schema of the tuples that were written. -/
def schema? : Write → Option Schema
  | insert _ schema _ | replace _ schema _ => some schema
  | remove _ => none

/-- What the write makes of the relation of its key. -/
def apply : Write → Option Relation → Option Relation
  | insert _ _ ts, some r => some ⟨r.schema, r.bag.union (.ofList ts)⟩
  | insert _ schema ts, none => some ⟨schema, .ofList ts⟩
  | replace _ schema ts, _ => some ⟨schema, .ofList ts⟩
  | remove _, _ => none

/-- What writes make of the relation under a key; those of other keys do nothing. -/
def replay (key : Key) (log : List Write) (r : Option Relation) : Option Relation :=
  (log.filter fun w => decide (w.key = key)).foldl (fun r w => w.apply r) r

theorem replay_append (key : Key) (log log' : List Write) (r : Option Relation) :
    replay key (log ++ log') r = replay key log' (replay key log r) := by
  rw [replay, List.filter_append, List.foldl_append]
  rfl

/-- The last replacement or removal under a key. -/
def lastReset? (key : Key) (log : List Write) : Option Write :=
  ((log.filter fun w => decide (w.key = key)).rdropWhile isInsert).getLast?

/-- The insertions under a key behind the last replacement or removal. -/
def insertions (key : Key) (log : List Write) : List Write :=
  (log.filter fun w => decide (w.key = key)).rtakeWhile isInsert

/-- What the insertions of a log are added to: the relation that was replaced last, nothing behind
a removal, and what was there before if there was neither. -/
def origin (key : Key) (log : List Write) (initial : Option Relation) : Option Relation :=
  match lastReset? key log with
  | none => initial
  | some reset => reset.apply none

/-! ### Adding up -/

/-- What insertions make of a relation, or of nothing. -/
structure Recorded (start : Option Relation) (inserts : List Write) (r? : Option Relation) :
    Prop where
  /-- There is no relation if there was none and nothing was inserted. -/
  absent : r? = none ↔ start = none ∧ inserts = []
  /-- The tuples of the insertions are added to those of the start. -/
  tuples : ∀ r, r? = some r → (r.bag.elements : Multiset Tuple) =
    (start.elim 0 fun old => (old.bag.elements : Multiset Tuple)) + (inserts.map Write.tuples).sum
  /-- The schema is that of the start, and if there was none that of the first insertion. -/
  schema : ∀ r, r? = some r →
    some r.schema = (start.map Relation.schema).or (inserts.head?.bind schema?)

theorem Recorded.start (start : Option Relation) : Recorded start [] start where
  absent := (and_iff_left rfl).symm
  tuples := by
    rintro r rfl
    exact (add_zero _).symm
  schema := by
    rintro r rfl
    rfl

theorem elements_union (a b : Bag) :
    ((a.union b).elements : Multiset Tuple) = (a.elements : Multiset Tuple) + b.elements := by
  rw [Multiset.coe_add, Multiset.coe_eq_coe, List.perm_iff_count]
  intro t
  rw [List.count_append, Bag.count_elements, Bag.count_elements, Bag.count_elements,
    Bag.count_union]

theorem elements_ofList (ts : List Tuple) :
    ((Bag.ofList ts).elements : Multiset Tuple) = (ts : Multiset Tuple) :=
  Multiset.coe_eq_coe.2 (Bag.elements_ofList_perm ts)

/-- **One more insertion adds its tuples**, and gives its schema where there was no relation. -/
theorem Recorded.insert {start r? : Option Relation} {inserts : List Write}
    (h : Recorded start inserts r?) (key : Key) (schema : Schema) (ts : List Tuple) :
    Recorded start (inserts ++ [.insert key schema ts]) ((Write.insert key schema ts).apply r?) := by
  have hsum : ((inserts ++ [Write.insert key schema ts]).map Write.tuples).sum =
      (inserts.map Write.tuples).sum + (ts : Multiset Tuple) := by
    rw [List.map_append, List.sum_append, List.map_singleton, List.sum_singleton]
    rfl
  cases r? with
  | none =>
    obtain ⟨rfl, rfl⟩ := h.absent.1 rfl
    refine ⟨by simp [apply], ?_, ?_⟩
    · rintro r ⟨⟩
      rw [hsum, elements_ofList]
      simp
    · rintro r ⟨⟩
      rfl
  | some old =>
    refine ⟨by simp [apply], ?_, ?_⟩
    · rintro r ⟨⟩
      rw [hsum, elements_union, h.tuples old rfl, elements_ofList, add_assoc]
    · rintro r ⟨⟩
      rw [h.schema old rfl]
      cases inserts with
      | cons => rfl
      | nil =>
        cases start with
        | some start => rfl
        | none => cases h.absent.2 ⟨rfl, rfl⟩

/-! ### Starting over -/

section Snoc

variable {key : Key} {log : List Write} {w : Write}

theorem filter_snoc (h : w.key = key) : (log ++ [w]).filter (fun w => decide (w.key = key)) =
    (log.filter fun w => decide (w.key = key)) ++ [w] := by
  rw [List.filter_append, List.filter_singleton, decide_eq_true h]
  rfl

theorem filter_snoc_of_ne (h : w.key ≠ key) :
    (log ++ [w]).filter (fun w => decide (w.key = key)) =
      log.filter fun w => decide (w.key = key) := by
  rw [List.filter_append, List.filter_singleton, decide_eq_false h]
  exact List.append_nil _

theorem insertions_insert (h : w.key = key) (hw : w.isInsert = true) :
    insertions key (log ++ [w]) = insertions key log ++ [w] := by
  rw [insertions, filter_snoc h, List.rtakeWhile_concat_pos _ _ _ hw]
  rfl

theorem insertions_reset (h : w.key = key) (hw : w.isInsert = false) :
    insertions key (log ++ [w]) = [] := by
  rw [insertions, filter_snoc h, List.rtakeWhile_concat_neg]
  rw [hw]
  exact Bool.false_ne_true

theorem lastReset?_insert (h : w.key = key) (hw : w.isInsert = true) :
    lastReset? key (log ++ [w]) = lastReset? key log := by
  rw [lastReset?, filter_snoc h, List.rdropWhile_concat_pos _ _ _ hw]
  rfl

theorem lastReset?_reset (h : w.key = key) (hw : w.isInsert = false) :
    lastReset? key (log ++ [w]) = some w := by
  rw [lastReset?, filter_snoc h, List.rdropWhile_concat_neg, List.getLast?_concat]
  rw [hw]
  exact Bool.false_ne_true

theorem replay_snoc (h : w.key = key) (r : Option Relation) :
    replay key (log ++ [w]) r = w.apply (replay key log r) := by
  rw [replay, filter_snoc h, List.foldl_append]
  rfl

end Snoc

theorem apply_reset {w : Write} (h : w.isInsert = false) (r : Option Relation) :
    w.apply r = w.apply none := by
  cases w with
  | insert => cases h
  | replace | remove => rfl

/-- **A replay starts over with each replacement and removal, and adds up the insertions behind
the last one.** -/
theorem recorded_replay (key : Key) (log : List Write) (initial : Option Relation) :
    Recorded (origin key log initial) (insertions key log) (replay key log initial) := by
  induction log using List.reverseRecOn with
  | nil => exact .start initial
  | append_singleton log w ih =>
    by_cases hkey : w.key = key
    · cases hw : w.isInsert with
      | true =>
        rw [origin, lastReset?_insert hkey hw, insertions_insert hkey hw, replay_snoc hkey]
        cases w with
        | insert key' schema ts => exact ih.insert key' schema ts
        | replace | remove => cases hw
      | false =>
        rw [origin, lastReset?_reset hkey hw, insertions_reset hkey hw, replay_snoc hkey,
          apply_reset hw]
        exact .start _
    · rw [origin, lastReset?, insertions, replay, filter_snoc_of_ne hkey]
      exact ih

end Write

namespace Store

/-- Tuples are refused exactly by a relation with columns of other types. -/
theorem add_eq_error_iff {store : Store} {key : Key} {schema : Schema} {bag : Bag} {e : Error} :
    store.add key schema bag = .error e ↔ ∃ r, store.get? key = some r ∧
      ¬r.schema.Compatible schema ∧ e = .incompatible r.schema.render schema.render := by
  unfold add
  cases hr : store.get? key with
  | none =>
    refine ⟨nofun, ?_⟩
    rintro ⟨r, hr, -⟩
    cases hr
  | some r =>
    dsimp only
    unfold Schema.checkCompatible
    by_cases hc : r.schema.Compatible schema
    · rw [if_pos hc]
      refine ⟨nofun, ?_⟩
      rintro ⟨r', hr', hc', -⟩
      cases hr'
      exact absurd hc hc'
    · rw [if_neg hc]
      constructor
      · rintro ⟨⟩
        exact ⟨r, rfl, hc, rfl⟩
      · rintro ⟨r', hr', -, rfl⟩
        cases hr'
        rfl

theorem get?_of_add_self {store store' : Store} {key : Key} {schema : Schema} {ts : List Tuple}
    (h : store.add key schema (.ofList ts) = .ok store') :
    store'.get? key = (Write.insert key schema ts).apply (store.get? key) := by
  unfold add at h
  cases hr : store.get? key with
  | none =>
    rw [hr] at h
    cases h
    exact Dictionary.get?_insert_self ..
  | some r =>
    rw [hr] at h
    obtain ⟨_, -, h⟩ := bind_eq_ok_iff.1 h
    cases h
    exact Dictionary.get?_insert_self ..

end Store

/-! ## Operations -/

/-- Something that is done with a database. -/
inductive Operation where
  | evaluate (p : Plan)
  | remove (key : Key)

namespace Operation

/-- Carries an operation out. -/
def run (env : Environment) (db : Database) : Operation → Except Error Result × Database
  | evaluate p => db.evaluate env p
  | remove key => (.ok .none, db.remove key)

/-- Carries operations out in order, whether or not they succeed. -/
def runAll (env : Environment) (db : Database) (ops : List Operation) : Database :=
  ops.foldl (fun db op => (op.run env db).2) db

/-- The entry of an operation in the log: a write that succeeds, with the tuples that its query
gives on the store as it is. -/
def write? (env : Environment) (db : Database) (op : Operation) : Option Write :=
  match (op.run env db).1, op with
  | .error _, _ | .ok _, evaluate (.query _) => none
  | .ok _, evaluate (.insert key input) =>
    (input.drain env db.store).outcome.toOption.map (Write.insert key input.schema)
  | .ok _, evaluate (.replace key input) =>
    (input.drain env db.store).outcome.toOption.map (Write.replace key input.schema)
  | .ok _, remove key => some (.remove key)

/-- The writes that succeed while operations are carried out. -/
def log (env : Environment) : Database → List Operation → List Write
  | _, [] => []
  | db, op :: ops => (op.write? env db).toList ++ log env (op.run env db).2 ops

variable {env : Environment} {db : Database}

theorem runAll_append (env : Environment) (db : Database) (ops ops' : List Operation) :
    runAll env db (ops ++ ops') = runAll env (runAll env db ops) ops' := List.foldl_append

/-! ### One operation -/

theorem run_insert_of_error (key : Key) {input : Query} {e : Error}
    (h : (input.drain env db.store).outcome = .error e) :
    ((evaluate (.insert key input)).run env db).1 = .error e ∧
      ((evaluate (.insert key input)).run env db).2.store = db.store := by
  simp only [run, Database.evaluate, Database.drain, h]
  exact ⟨trivial, rfl⟩

theorem run_insert_of_added {key : Key} {input : Query} {ts : List Tuple} {store : Store}
    (h : (input.drain env db.store).outcome = .ok ts)
    (hadd : db.store.add key input.schema (.ofList ts) = .ok store) :
    ((evaluate (.insert key input)).run env db).1 = .ok .none ∧
      ((evaluate (.insert key input)).run env db).2.store = store := by
  simp only [run, Database.evaluate, Database.drain, h, Database.insert, Database.scanned, hadd]
  exact ⟨rfl, trivial⟩

theorem run_insert_of_refused {key : Key} {input : Query} {ts : List Tuple} {e : Error}
    (h : (input.drain env db.store).outcome = .ok ts)
    (hadd : db.store.add key input.schema (.ofList ts) = .error e) :
    ((evaluate (.insert key input)).run env db).1 = .error e ∧
      ((evaluate (.insert key input)).run env db).2.store = db.store := by
  simp only [run, Database.evaluate, Database.drain, h, Database.insert, Database.scanned, hadd]
  exact ⟨rfl, rfl⟩

theorem run_replace_of_error (key : Key) {input : Query} {e : Error}
    (h : (input.drain env db.store).outcome = .error e) :
    ((evaluate (.replace key input)).run env db).1 = .error e ∧
      ((evaluate (.replace key input)).run env db).2.store = db.store := by
  simp only [run, Database.evaluate, Database.drain, h]
  exact ⟨trivial, rfl⟩

theorem run_replace_of_ok (key : Key) {input : Query} {ts : List Tuple}
    (h : (input.drain env db.store).outcome = .ok ts) :
    ((evaluate (.replace key input)).run env db).1 = .ok .none ∧
      ((evaluate (.replace key input)).run env db).2.store =
        db.store.replace key input.schema (.ofList ts) := by
  simp only [run, Database.evaluate, Database.drain, h]
  exact ⟨trivial, rfl⟩

/-- A write to a key does what the write says, and nothing to the other keys. -/
theorem get?_of_write {store store' : Store} {w : Write}
    (hself : store'.get? w.key = w.apply (store.get? w.key))
    (hother : ∀ key, key ≠ w.key → store'.get? key = store.get? key) (key : Key) :
    store'.get? key = Write.replay key [w] (store.get? key) := by
  by_cases hkey : w.key = key
  · subst hkey
    rw [hself, Write.replay, List.filter_singleton, decide_eq_true rfl]
    rfl
  · rw [hother key (Ne.symm hkey), Write.replay, List.filter_singleton, decide_eq_false hkey]
    rfl

/-- **An operation does to the store what its entry in the log says.** -/
theorem run_store (env : Environment) (db : Database) (op : Operation) (key : Key) :
    (op.run env db).2.store.get? key =
      Write.replay key (op.write? env db).toList (db.store.get? key) := by
  unfold write?
  match op with
  | remove gone =>
    refine get?_of_write (w := .remove gone) ?_ (fun key hkey => ?_) key
    · exact Dictionary.get?_erase_self ..
    · exact Dictionary.get?_erase_of_ne hkey
  | evaluate (.query q) =>
    cases ((evaluate (.query q)).run env db).1 <;> rfl
  | evaluate (.replace written input) =>
    cases hdrain : (input.drain env db.store).outcome with
    | error e =>
      obtain ⟨houtcome, hstore⟩ := run_replace_of_error written hdrain
      rw [houtcome, hstore]
      rfl
    | ok ts =>
      obtain ⟨houtcome, hstore⟩ := run_replace_of_ok written hdrain
      rw [houtcome, hstore]
      dsimp only
      rw [hdrain]
      refine get?_of_write (w := .replace written input.schema ts) ?_ (fun key hkey => ?_) key
      · exact Dictionary.get?_insert_self ..
      · exact Dictionary.get?_insert_of_ne hkey
  | evaluate (.insert written input) =>
    cases hdrain : (input.drain env db.store).outcome with
    | error e =>
      obtain ⟨houtcome, hstore⟩ := run_insert_of_error written hdrain
      rw [houtcome, hstore]
      rfl
    | ok ts =>
      cases hadd : db.store.add written input.schema (.ofList ts) with
      | error e =>
        obtain ⟨houtcome, hstore⟩ := run_insert_of_refused hdrain hadd
        rw [houtcome, hstore]
        rfl
      | ok store =>
        obtain ⟨houtcome, hstore⟩ := run_insert_of_added hdrain hadd
        rw [houtcome, hstore]
        dsimp only
        rw [hdrain]
        refine get?_of_write (w := .insert written input.schema ts) ?_ (fun key hkey => ?_) key
        · exact Store.get?_of_add_self hadd
        · exact Store.get?_of_add hadd hkey

/-- **The relation under a key is the replay of the log.** -/
theorem runAll_store (env : Environment) (db : Database) (ops : List Operation) (key : Key) :
    (runAll env db ops).store.get? key =
      Write.replay key (log env db ops) (db.store.get? key) := by
  induction ops generalizing db with
  | nil => rfl
  | cons op ops ih =>
    show (runAll env (op.run env db).2 ops).store.get? key = _
    rw [ih, run_store, log, Write.replay_append]

/-! ### Failures -/

/-- **An operation that fails leaves the store as it was.** -/
theorem store_of_failed {op : Operation} {e : Error} (h : (op.run env db).1 = .error e) :
    (op.run env db).2.store = db.store := by
  match op with
  | remove key => cases h
  | evaluate (.query q) => rfl
  | evaluate (.replace key input) =>
    cases hdrain : (input.drain env db.store).outcome with
    | error e => exact (run_replace_of_error key hdrain).2
    | ok ts =>
      rw [(run_replace_of_ok key hdrain).1] at h
      cases h
  | evaluate (.insert key input) =>
    cases hdrain : (input.drain env db.store).outcome with
    | error e => exact (run_insert_of_error key hdrain).2
    | ok ts =>
      cases hadd : db.store.add key input.schema (.ofList ts) with
      | error e => exact (run_insert_of_refused hdrain hadd).2
      | ok store =>
        rw [(run_insert_of_added hdrain hadd).1] at h
        cases h

theorem insert_fails_iff {key : Key} {input : Query} {ts : List Tuple}
    (h : (input.drain env db.store).outcome = .ok ts) {e : Error} :
    ((evaluate (.insert key input)).run env db).1 = .error e ↔
      ∃ r, db.store.get? key = some r ∧ ¬r.schema.Compatible input.schema ∧
        e = .incompatible r.schema.render input.schema.render := by
  have hrefused : db.store.add key input.schema (.ofList ts) = .error e ↔ _ :=
    Store.add_eq_error_iff
  rw [← hrefused]
  cases hadd : db.store.add key input.schema (.ofList ts) with
  | error e' => rw [(run_insert_of_refused h hadd).1, Except.error.injEq, Except.error.injEq]
  | ok store =>
    rw [(run_insert_of_added h hadd).1]
    exact ⟨nofun, nofun⟩

end Operation

/-- **The history of a store.**  Operations are carried out on any database.  In the end the
relation under a key holds the tuples of the insertions behind the last replacement or removal of
the key, added to those of the replacement, or to those at the beginning if there was neither; it
is there unless there is nothing to start from and no insertion; and its schema is the one it
starts from, or that of the insertion that created it.  Each write stands in the log with the
tuples of its query on the store just before.

An insertion whose query can be drained fails exactly at a relation with columns of other types, a
replacement never does, and both fail as their queries do.  Whatever fails leaves the store as it
was, and so does a query. -/
theorem Database.history (env : Environment) (db : Database) :
    (∀ (ops : List Operation) (key : Key),
      let log := Operation.log env db ops
      let start := Write.origin key log (db.store.get? key)
      let inserts := Write.insertions key log
      let final := (Operation.runAll env db ops).store.get? key
      (final = none ↔ start = none ∧ inserts = []) ∧
        ∀ r, final = some r →
          (r.bag.elements : Multiset Tuple) =
              (start.elim 0 fun old => (old.bag.elements : Multiset Tuple)) +
                (inserts.map Write.tuples).sum ∧
            some r.schema = (start.map Relation.schema).or (inserts.head?.bind Write.schema?)) ∧
      (∀ key input ts, (input.drain env db.store).outcome = .ok ts →
        (∀ e, (db.evaluate env (.insert key input)).1 = .error e ↔
          ∃ r, db.store.get? key = some r ∧ ¬r.schema.Compatible input.schema ∧
            e = .incompatible r.schema.render input.schema.render) ∧
          (db.evaluate env (.replace key input)).1 = .ok .none) ∧
      (∀ key input e, (input.drain env db.store).outcome = .error e →
        (db.evaluate env (.insert key input)).1 = .error e ∧
          (db.evaluate env (.replace key input)).1 = .error e) ∧
      (∀ (op : Operation) e, (op.run env db).1 = .error e →
        (op.run env db).2.store = db.store) ∧
      ∀ q, (db.evaluate env (.query q)).2.store = db.store := by
  refine ⟨fun ops key => ?_, fun key input ts h => ?_, fun key input e h => ?_,
    fun op e h => Operation.store_of_failed h, fun q => rfl⟩
  · have hrecorded := Write.recorded_replay key (Operation.log env db ops) (db.store.get? key)
    rw [← Operation.runAll_store] at hrecorded
    exact ⟨hrecorded.absent, fun r hr => ⟨hrecorded.tuples r hr, hrecorded.schema r hr⟩⟩
  · exact ⟨fun e => Operation.insert_fails_iff h, (Operation.run_replace_of_ok key h).1⟩
  · exact ⟨(Operation.run_insert_of_error key h).1, (Operation.run_replace_of_error key h).1⟩

/-- A relation that is inserted into itself holds its rows twice, and once again when it is
replaced by the set of them. -/
example :
    let schema : Schema := ⟨[⟨"a", .int⟩], by decide⟩
    let key : Key := ⟨"owner", "program", "relation"⟩
    let scan : Query := .scan key schema
    let stored (ops : List Plan) :=
      ((Operation.runAll ⟨fun _ => .refused "", none⟩ .fresh (ops.map .evaluate)).store.get?
        key).map fun r => r.bag.elements
    let twice : List Plan := [.insert key (.table [⟨[.int 1]⟩] schema), .insert key scan]
    stored twice = some [⟨[.int 1]⟩, ⟨[.int 1]⟩] ∧
      stored (twice ++ [.replace key (.distinct scan)]) = some [⟨[.int 1]⟩] := by
  decide +kernel

end BagQuery
