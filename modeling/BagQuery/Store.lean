import BagQuery.Plan.Key
import BagQuery.Relation.Bag
import BagQuery.Relation.Schema

/-!
# Stored relations

A store maps keys to relations: a schema and a bag.  A relation that is inserted into keeps its
schema; one that is replaced takes the new one.
-/

namespace BagQuery

/-- A schema and the tuples under it. -/
structure Relation where
  schema : Schema
  bag : Bag
deriving DecidableEq

/-- Relations by key. -/
abbrev Store := Dictionary Key Relation

namespace Store

/-- The relation under a key. -/
def relation (store : Store) (key : Key) : Except Error Relation :=
  match store.get? key with
  | some r => .ok r
  | none => .error (.unknownRelation key.render)

/-- Adds tuples to a relation that has compatible columns, or makes a new one. -/
def add (store : Store) (key : Key) (schema : Schema) (bag : Bag) : Except Error Store :=
  match store.get? key with
  | some r => do
    r.schema.checkCompatible schema
    return store.insert key ⟨r.schema, r.bag.union bag⟩
  | none => return store.insert key ⟨schema, bag⟩

/-- Puts a relation under a key, whatever was there. -/
def replace (store : Store) (key : Key) (schema : Schema) (bag : Bag) : Store :=
  store.insert key ⟨schema, bag⟩

end Store

/-- How often a store was read and written. -/
structure Traffic where
  scans : Nat
  writes : Nat
  removes : Nat
deriving DecidableEq, Repr

/-- Nothing read or written. -/
def Traffic.none : Traffic := ⟨0, 0, 0⟩

end BagQuery
