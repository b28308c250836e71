import AccessReview.MappingCache
import AccessReview.Table

/-!
# The mapping cache as it is kept

A mapping cache is kept as two structures that every operation updates together: a table
from keys to kept outcomes, and a queue of the keys from least to most recently used.

A hit of `get` and every `set` move the key to the back of the queue. `set` writes the table
first and then evicts the key at the front of the queue while the table holds more entries
than the capacity, stopping early should the queue run out. Forgetting a key removes it from
the queue only when the table had it; forgetting a database filters both. A capacity of 0
keeps nothing. Entries never expire here.

`MappingCache` is the same cache seen as one list; the two are compared in
`AccessReview.Proofs.LruRefinement`.
-/

namespace AccessReview

/-- A least-recently-used cache kept as a table of entries and a queue of keys. -/
structure LruTable where
  /-- The most entries kept. -/
  capacity : Nat
  /-- The kept outcome of each key. -/
  entries : Table DatabasePrincipal CachedMapping
  /-- The keys from least to most recently used. -/
  order : List DatabasePrincipal
  deriving DecidableEq, Repr

namespace LruTable

/-- An empty cache. -/
def empty (capacity : Nat) : LruTable := ⟨capacity, .empty, []⟩

/-- The number of entries. -/
def size (t : LruTable) : Nat := t.entries.rows.length

/-- The queue with a key moved to the back. -/
def touch (order : List DatabasePrincipal) (k : DatabasePrincipal) : List DatabasePrincipal :=
  order.filter (· != k) ++ [k]

/-- Evicts the key at the front of the queue while the table holds more than `capacity`
entries; stops when the queue is empty. -/
def evictOver (capacity : Nat) (entries : Table DatabasePrincipal CachedMapping) :
    List DatabasePrincipal → Table DatabasePrincipal CachedMapping × List DatabasePrincipal
  | [] => (entries, [])
  | k :: rest =>
    if capacity < entries.rows.length then evictOver capacity (entries.erase k) rest
    else (entries, k :: rest)

/-- The kept outcome for a key, moving the key to the back of the queue on a hit. -/
def get (t : LruTable) (k : DatabasePrincipal) : Option CachedMapping × LruTable :=
  if t.capacity == 0 then (none, t)
  else
    match t.entries.find? k with
    | some m => (some m, { t with order := touch t.order k })
    | none => (none, t)

/-- Keeps an outcome for a key at the back of the queue, then evicts past the capacity. -/
def set (t : LruTable) (k : DatabasePrincipal) (m : CachedMapping) : LruTable :=
  if t.capacity == 0 then t
  else
    let kept := evictOver t.capacity (t.entries.insert k m) (touch t.order k)
    { t with entries := kept.1, order := kept.2 }

/-- Forgets one key: from the table, and from the queue when the table had it. -/
def invalidatePrincipal (t : LruTable) (k : DatabasePrincipal) : LruTable :=
  match t.entries.find? k with
  | some _ => { t with entries := t.entries.erase k, order := t.order.filter (· != k) }
  | none => t

/-- Forgets every key of a database, in the table and in the queue. -/
def invalidateDatabase (t : LruTable) (db : DatabaseName) : LruTable :=
  { t with entries := t.entries.retain (·.db != db), order := t.order.filter (·.db != db) }

end LruTable

end AccessReview
