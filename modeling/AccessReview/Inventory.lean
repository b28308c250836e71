import AccessReview.Store
import AccessReview.MappingCache

/-!
# The inventory and its actions

An inventory is a store together with the mapping cache kept in front of it. Every
operation of the library is an `Action`: it reads and changes the inventory and may fail
with an `Error`. A failing action keeps the changes it made before failing, as calls to a
real server would: a page that was served stays counted and a statement that ran stays
journaled.
-/

namespace AccessReview

/-- A store and the mapping cache in front of it. -/
structure Inventory where
  /-- The catalog and its journal. -/
  store : Store
  /-- The cache of database-principal lookups. -/
  cache : MappingCache
  deriving Repr

/-- An operation on the inventory that may fail. -/
abbrev Action (α : Type) := ExceptT Error (StateM Inventory) α

namespace Action

variable {α : Type}

/-- Runs an action on an inventory: its outcome and the inventory after it. -/
def run (a : Action α) (i : Inventory) : Except Error α × Inventory :=
  (ExceptT.run a).run i

/-- The action that fails with an error. -/
def fail (e : Error) : Action α := throw e

/-- The action that has a computed outcome and changes nothing. -/
def ofExcept (r : Except Error α) : Action α := ExceptT.mk (pure r)

/-- The action of a step on the store. -/
def onStore (f : Store → α × Store) : Action α :=
  modifyGet fun i => let (a, s) := f i.store; (a, { i with store := s })

/-- The action of a step on the cache. -/
def onCache (f : MappingCache → α × MappingCache) : Action α :=
  modifyGet fun i => let (a, c) := f i.cache; (a, { i with cache := c })

/-- The store as it is now. -/
def store : Action Store := return (← get).store

/-- The action of a store step that may fail; a failed step leaves the store as it was. -/
def change (f : Store → Except Error Store) : Action Unit := do
  let s ← ofExcept (f (← store))
  modify fun i => { i with store := s }

end Action

end AccessReview
