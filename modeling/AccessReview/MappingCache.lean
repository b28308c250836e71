import AccessReview.Principal

/-!
# The mapping cache

Resolving a database principal to its server login takes a store lookup; the outcome,
including "no login", can be kept in a cache of bounded capacity that drops the least
recently used entry first.

The cache is a list of entries from least to most recently used, each key once. A hit of
`get` and every `set` move the key to the most recent end; after a `set`, entries are dropped
from the least recent end while there are more than the capacity. A capacity of 0 keeps
nothing: `get` always misses and `set` does nothing.
-/

namespace AccessReview

/-- The outcome of a lookup, as kept. -/
inductive CachedMapping where
  /-- The database principal maps to this server principal. -/
  | mapped (principal : ServerPrincipal)
  /-- The database principal has no server login. -/
  | unmapped
  deriving DecidableEq, Repr

/-- The server principal of a kept outcome. -/
def CachedMapping.toOption : CachedMapping → Option ServerPrincipal
  | .mapped p => some p
  | .unmapped => none

/-- The kept form of a lookup's outcome. -/
def CachedMapping.ofOption : Option ServerPrincipal → CachedMapping
  | some p => .mapped p
  | none => .unmapped

/-- A least-recently-used cache of mappings. -/
structure MappingCache where
  /-- The most entries kept. -/
  capacity : Nat
  /-- Entries from least to most recently used, each key once. -/
  entries : List (DatabasePrincipal × CachedMapping)
  deriving DecidableEq, Repr

/-- An empty cache. -/
def MappingCache.empty (capacity : Nat) : MappingCache := ⟨capacity, []⟩

/-- The number of entries. -/
def MappingCache.size (c : MappingCache) : Nat := c.entries.length

/-- Drops the least recent entries while there are more than `n`. -/
def keepRecent (n : Nat) (entries : List (DatabasePrincipal × CachedMapping)) :
    List (DatabasePrincipal × CachedMapping) :=
  entries.drop (entries.length - n)

/-- The kept outcome for a key, making the key the most recent on a hit. -/
def MappingCache.get (c : MappingCache) (k : DatabasePrincipal) : Option CachedMapping × MappingCache :=
  if c.capacity == 0 then (none, c)
  else
    match c.entries.find? (·.1 == k) with
    | none => (none, c)
    | some (_, m) => (some m, { c with entries := c.entries.filter (·.1 != k) ++ [(k, m)] })

/-- Keeps an outcome for a key as the most recent, dropping the least recent entries past
the capacity. -/
def MappingCache.set (c : MappingCache) (k : DatabasePrincipal) (m : CachedMapping) : MappingCache :=
  if c.capacity == 0 then c
  else { c with entries := keepRecent c.capacity (c.entries.filter (·.1 != k) ++ [(k, m)]) }

/-- Forgets one key. -/
def MappingCache.invalidatePrincipal (c : MappingCache) (k : DatabasePrincipal) : MappingCache :=
  { c with entries := c.entries.filter (·.1 != k) }

/-- Forgets every key of a database. -/
def MappingCache.invalidateDatabase (c : MappingCache) (db : DatabaseName) : MappingCache :=
  { c with entries := c.entries.filter (·.1.db != db) }

/-- A request to the cache; database names come as given and are checked first. -/
inductive CacheCommand where
  /-- Keeps an outcome. -/
  | set (db : String) (principal : PrincipalId) (mapping : CachedMapping)
  /-- Looks an outcome up. -/
  | get (db : String) (principal : PrincipalId)
  /-- Forgets one key. -/
  | invalidatePrincipal (db : String) (principal : PrincipalId)
  /-- Forgets a database. -/
  | invalidateDatabase (db : String)
  /-- Counts the entries. -/
  | size
  deriving DecidableEq, Repr

/-- The answer to a cache request. -/
inductive CacheReply where
  /-- The request was carried out. -/
  | done
  /-- Nothing is kept for the key. -/
  | miss
  /-- The kept outcome. -/
  | found (mapping : CachedMapping)
  /-- The number of entries. -/
  | count (n : Nat)
  /-- A database name was refused. -/
  | refused (e : Error)
  deriving DecidableEq, Repr

/-- Carries out a cache request. -/
def MappingCache.apply (c : MappingCache) : CacheCommand → CacheReply × MappingCache
  | .set db p m =>
    match DatabaseName.parse db with
    | .error e => (.refused e, c)
    | .ok d => (.done, c.set ⟨d, p⟩ m)
  | .get db p =>
    match DatabaseName.parse db with
    | .error e => (.refused e, c)
    | .ok d =>
      match c.get ⟨d, p⟩ with
      | (some m, c) => (.found m, c)
      | (none, c) => (.miss, c)
  | .invalidatePrincipal db p =>
    match DatabaseName.parse db with
    | .error e => (.refused e, c)
    | .ok d => (.done, c.invalidatePrincipal ⟨d, p⟩)
  | .invalidateDatabase db =>
    match DatabaseName.parse db with
    | .error e => (.refused e, c)
    | .ok d => (.done, c.invalidateDatabase d)
  | .size => (.count c.size, c)

/-- Carries out requests in order, answering each. -/
def MappingCache.applyAll (c : MappingCache) : List CacheCommand → List CacheReply × MappingCache
  | [] => ([], c)
  | cmd :: rest =>
    let (reply, c) := c.apply cmd
    let (replies, c) := c.applyAll rest
    (reply :: replies, c)

end AccessReview
