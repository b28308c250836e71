import Mathlib
import AccessReview.Proofs.PermissionPages

/-! # Requests to the mapping cache

Everything the library does with the mapping cache is one of two requests: read the mapping
of a database principal (a hit answers from the cache, a miss asks the store, which counts one
lookup, and keeps its answer), or forget the mappings of a database. Serving a list of
requests (`MappingCache.serveAll`) gives the cache after them and the number of reads that
missed.

A cache of capacity 0 keeps nothing, so every read misses (`serveAll_disabled`), and no cache
misses more often than that (`serveAll_misses_le`). A cache that starts empty and whose
capacity holds every mapping the reads ask for never drops one, so it misses once for each
distinct mapping (`serveAll_empty_reads`).
-/

namespace AccessReview

/-- A request made of the mapping cache. -/
inductive CacheRequest where
  /-- Reads the mapping of a database principal. -/
  | read (p : DatabasePrincipal)
  /-- Forgets the mappings of a database. -/
  | forget (db : DatabaseName)
  deriving DecidableEq, Repr

/-- The mapping a request reads, if it reads one. -/
def CacheRequest.read? : CacheRequest → Option DatabasePrincipal
  | .read p => some p
  | .forget _ => none

/-- Whether a request forgets a database. -/
def CacheRequest.isForget : CacheRequest → Bool
  | .read _ => false
  | .forget _ => true

namespace MappingCache

/-- Serves one request with the answers of a mapping table: the cache after it, and 1 when a
read missed and the table was asked. -/
def serve (c : MappingCache) (tbl : Table DatabasePrincipal ServerPrincipal) :
    CacheRequest → MappingCache × Nat
  | .read p =>
    match c.get p with
    | (some _, c') => (c', 0)
    | (none, c') => (c'.set p (CachedMapping.ofOption (tbl.find? p)), 1)
  | .forget db => (c.invalidateDatabase db, 0)

/-- Serves requests in order: the cache after them, and how many reads missed. -/
def serveAll (c : MappingCache) (tbl : Table DatabasePrincipal ServerPrincipal) :
    List CacheRequest → MappingCache × Nat
  | [] => (c, 0)
  | r :: rs =>
    let first := c.serve tbl r
    let rest := first.1.serveAll tbl rs
    (rest.1, first.2 + rest.2)

variable {c : MappingCache} {tbl : Table DatabasePrincipal ServerPrincipal}

theorem serveAll_append (c : MappingCache) (rs qs : List CacheRequest) :
    c.serveAll tbl (rs ++ qs) =
      (((c.serveAll tbl rs).1.serveAll tbl qs).1,
        (c.serveAll tbl rs).2 + ((c.serveAll tbl rs).1.serveAll tbl qs).2) := by
  induction rs generalizing c with
  | nil => simp [serveAll]
  | cons r rs ih => simp only [List.cons_append, serveAll, ih, Nat.add_assoc]

/-- Serving keeps a cache that agrees with the table agreeing. -/
theorem serve_agrees (h : c.Agrees tbl) (r : CacheRequest) : (c.serve tbl r).1.Agrees tbl := by
  cases r with
  | read p =>
    obtain ⟨-, hget⟩ := c.get_agrees h p
    dsimp only [serve]
    split
    · rename_i hc
      rw [hc] at hget
      exact hget
    · rename_i hc
      rw [hc] at hget
      exact set_agrees hget p
  | forget db => exact fun e he => h e (List.mem_of_mem_filter he)

theorem serveAll_agrees (h : c.Agrees tbl) (rs : List CacheRequest) :
    (c.serveAll tbl rs).1.Agrees tbl := by
  induction rs generalizing c with
  | nil => exact h
  | cons r rs ih => exact ih (serve_agrees h r)

/-- A request misses at most once, and only when it reads. -/
theorem serve_misses_le (c : MappingCache) (r : CacheRequest) :
    (c.serve tbl r).2 ≤ r.read?.toList.length := by
  cases r with
  | read p =>
    dsimp only [serve]
    split <;> simp [CacheRequest.read?]
  | forget db => exact le_refl 0

/-- No cache misses more reads than there are. -/
theorem serveAll_misses_le (c : MappingCache) (rs : List CacheRequest) :
    (c.serveAll tbl rs).2 ≤ (rs.filterMap CacheRequest.read?).length := by
  induction rs generalizing c with
  | nil => exact le_refl 0
  | cons r rs ih =>
    have hfirst : (c.serve tbl r).2 ≤ r.read?.toList.length := serve_misses_le c r
    have hrest := ih (c.serve tbl r).1
    have hcount : ((r :: rs).filterMap CacheRequest.read?).length =
        r.read?.toList.length + (rs.filterMap CacheRequest.read?).length := by
      cases r <;> simp [CacheRequest.read?, List.filterMap_cons, Nat.add_comm]
    simp only [serveAll]
    omega

/-- A cache of capacity 0 misses every read and stays empty. -/
theorem serveAll_disabled (rs : List CacheRequest) :
    (MappingCache.empty 0).serveAll tbl rs =
      (MappingCache.empty 0, (rs.filterMap CacheRequest.read?).length) := by
  induction rs with
  | nil => rfl
  | cons r rs ih =>
    cases r with
    | read p =>
      simp only [serveAll, List.filterMap_cons, CacheRequest.read?, List.length_cons]
      have hserve : (MappingCache.empty 0).serve tbl (.read p) = (MappingCache.empty 0, 1) := rfl
      rw [hserve, ih]
      simp only [Nat.add_comm]
    | forget db =>
      simp only [serveAll, List.filterMap_cons, CacheRequest.read?]
      have hserve : (MappingCache.empty 0).serve tbl (.forget db) = (MappingCache.empty 0, 0) :=
        rfl
      rw [hserve, ih]
      simp

/-! ## A cache that holds every mapping asked for -/

/-- The keys a cache holds, from least to most recently used. -/
def keys (c : MappingCache) : List DatabasePrincipal := c.entries.map Prod.fst

/-- A hit makes its key the most recent; the cache keeps its keys. -/
theorem get_of_mem (hcap : c.capacity ≠ 0) {p : DatabasePrincipal} (hp : p ∈ c.keys) :
    ∃ m, c.get p = (some m, { c with entries := c.entries.filter (·.1 != p) ++ [(p, m)] }) := by
  obtain ⟨e, he, rfl⟩ := List.mem_map.mp hp
  have hfind : (c.entries.find? (·.1 == e.1)).isSome := List.find?_isSome.mpr ⟨e, he, by simp⟩
  obtain ⟨⟨k, m⟩, hkm⟩ := Option.isSome_iff_exists.mp hfind
  have hk : k = e.1 := by simpa using List.find?_some hkm
  subst hk
  refine ⟨m, ?_⟩
  unfold get
  rw [if_neg (by simpa using hcap), hkm]

/-- A miss asks nothing of the cache. -/
theorem get_of_not_mem {p : DatabasePrincipal} (hp : p ∉ c.keys) : c.get p = (none, c) := by
  unfold get
  split
  · rfl
  · have hnone : c.entries.find? (·.1 == p) = none := by
      rw [List.find?_eq_none]
      intro e he hep
      exact hp (List.mem_map.mpr ⟨e, he, by simpa using hep⟩)
    rw [hnone]

/-- Keeping a new key in a cache with room for it drops nothing. -/
theorem keys_set_of_fits {p : DatabasePrincipal} (hp : p ∉ c.keys) (hcap : c.capacity ≠ 0)
    (hroom : c.keys.length + 1 ≤ c.capacity) (m : CachedMapping) :
    (c.set p m).keys = c.keys ++ [p] := by
  have hfilter : c.entries.filter (·.1 != p) = c.entries := by
    rw [List.filter_eq_self]
    intro e he
    have : e.1 ≠ p := fun hep => hp (List.mem_map.mpr ⟨e, he, hep⟩)
    simpa using this
  unfold set keys
  rw [if_neg (by simpa using hcap)]
  simp only [hfilter, keepRecent, List.length_append, List.length_singleton]
  rw [show c.entries.length + 1 - c.capacity = 0 by
    simp only [keys, List.length_map] at hroom; omega]
  simp

theorem set_capacity (c : MappingCache) (p : DatabasePrincipal) (m : CachedMapping) :
    (c.set p m).capacity = c.capacity := by
  unfold set
  split <;> rfl

/-- A read of a key the cache holds hits: the key becomes the most recent, and the keys held
stay the same, without repeats. -/
theorem serve_read_of_mem (tbl : Table DatabasePrincipal ServerPrincipal) (hcap : c.capacity ≠ 0)
    (hnodup : c.keys.Nodup) {p : DatabasePrincipal} (hp : p ∈ c.keys) :
    (c.serve tbl (.read p)).2 = 0 ∧ (c.serve tbl (.read p)).1.keys.toFinset = c.keys.toFinset ∧
      (c.serve tbl (.read p)).1.keys.Nodup ∧ (c.serve tbl (.read p)).1.capacity = c.capacity := by
  obtain ⟨m, hget⟩ := get_of_mem hcap hp
  have hserve : c.serve tbl (.read p) =
      ({ c with entries := c.entries.filter (·.1 != p) ++ [(p, m)] }, 0) := by
    simp only [serve, hget]
  have hkeys : (c.serve tbl (.read p)).1.keys = c.keys.filter (· != p) ++ [p] := by
    simp only [hserve, keys, List.map_append, List.map_cons, List.map_nil, List.filter_map]
    rfl
  refine ⟨by rw [hserve], ?_, ?_, by rw [hserve]⟩
  · ext q
    simp only [hkeys, List.toFinset_append, List.mem_toFinset, Finset.mem_union,
      List.mem_filter, List.mem_singleton, bne_iff_ne, ne_eq]
    by_cases hq : q = p
    · subst hq
      simp [hp]
    · simp [hq]
  · rw [hkeys, ← List.concat_eq_append]
    exact (hnodup.filter _).concat (by simp)

/-- A read of a key the cache does not hold misses once, and with room the key is kept as the
most recent, nothing dropped. -/
theorem serve_read_of_not_mem (tbl : Table DatabasePrincipal ServerPrincipal)
    (hcap : c.capacity ≠ 0) {p : DatabasePrincipal} (hp : p ∉ c.keys)
    (hroom : c.keys.length + 1 ≤ c.capacity) :
    (c.serve tbl (.read p)).2 = 1 ∧ (c.serve tbl (.read p)).1.keys = c.keys ++ [p] ∧
      (c.serve tbl (.read p)).1.capacity = c.capacity := by
  have hserve : c.serve tbl (.read p) = (c.set p (CachedMapping.ofOption (tbl.find? p)), 1) := by
    rw [serve, get_of_not_mem hp]
  rw [hserve]
  exact ⟨rfl, keys_set_of_fits hp hcap hroom _, set_capacity c p _⟩

/-- Reads served by a cache with room for every key it holds and every key read: each key not
held yet misses once, and nothing else misses. -/
theorem serveAll_reads_of_fits (ps : List DatabasePrincipal) :
    ∀ c : MappingCache, c.keys.Nodup → c.capacity ≠ 0 →
      (c.keys ++ ps).toFinset.card ≤ c.capacity →
      (c.serveAll tbl (ps.map .read)).2 = (ps.toFinset \ c.keys.toFinset).card := by
  induction ps with
  | nil =>
    intros
    simp [serveAll]
  | cons p ps ih =>
    intro c hnodup hcap hfits
    simp only [List.map_cons, serveAll]
    by_cases hp : p ∈ c.keys
    · -- a hit: the keys held, and so the keys still to miss, stay the same
      obtain ⟨hzero, hset, hnodup', hcap'⟩ := serve_read_of_mem tbl hcap hnodup hp
      have hfits' : ((c.serve tbl (.read p)).1.keys ++ ps).toFinset.card ≤
          (c.serve tbl (.read p)).1.capacity := by
        rw [hcap', List.toFinset_append, hset, ← List.toFinset_append]
        exact le_trans (Finset.card_le_card fun q => by simp; tauto) hfits
      rw [ih _ hnodup' (hcap' ▸ hcap) hfits', hset, hzero, List.toFinset_cons,
        Finset.insert_sdiff_of_mem _ (List.mem_toFinset.mpr hp), Nat.zero_add]
    · -- a miss: the store is asked and the key is kept, with room for it
      have hnodup_p : (c.keys ++ [p]).Nodup := List.concat_eq_append .. ▸ hnodup.concat hp
      have hroom : c.keys.length + 1 ≤ c.capacity :=
        calc c.keys.length + 1 = (c.keys ++ [p]).toFinset.card := by
              rw [List.toFinset_card_of_nodup hnodup_p]
              simp
          _ ≤ (c.keys ++ p :: ps).toFinset.card := Finset.card_le_card (by intro q; simp; tauto)
          _ ≤ c.capacity := hfits
      obtain ⟨hone, hkeys, hcap'⟩ := serve_read_of_not_mem tbl hcap hp hroom
      have hfits' : ((c.serve tbl (.read p)).1.keys ++ ps).toFinset.card ≤
          (c.serve tbl (.read p)).1.capacity := by
        rw [hkeys, hcap', List.append_assoc]
        exact hfits
      rw [ih _ (hkeys ▸ hnodup_p) (hcap' ▸ hcap) hfits', hkeys, hone]
      -- the new key counts once, as the first of the keys read and not held
      have hsplit : (p :: ps).toFinset \ c.keys.toFinset =
          insert p (ps.toFinset \ (c.keys ++ [p]).toFinset) := by
        ext q
        simp only [List.toFinset_cons, List.toFinset_append, Finset.mem_sdiff, Finset.mem_insert,
          Finset.mem_union, List.mem_toFinset, List.toFinset_nil, insert_empty_eq,
          Finset.mem_singleton]
        by_cases hq : q = p
        · subst hq
          simp [hp]
        · simp [hq]
      rw [hsplit, Finset.card_insert_of_notMem (by simp)]
      omega

/-- A cache that starts empty, with room for every mapping read, misses once for each distinct
mapping. -/
theorem serveAll_empty_reads {k : Nat} (ps : List DatabasePrincipal) (hfits : ps.dedup.length ≤ k) :
    ((MappingCache.empty k).serveAll tbl (ps.map .read)).2 = ps.dedup.length := by
  rcases Nat.eq_zero_or_pos k with rfl | hk
  · -- no room at all: nothing is read
    have hnil : ps = [] := (List.dedup_eq_nil ps).mp (List.length_eq_zero_iff.mp (by omega))
    subst hnil
    rfl
  · have h : ((MappingCache.empty k).serveAll tbl (ps.map .read)).2 =
        (ps.toFinset \ (MappingCache.empty k).keys.toFinset).card :=
      serveAll_reads_of_fits ps (MappingCache.empty k) List.nodup_nil
        (by simp [MappingCache.empty]; omega)
        (by simpa [keys, MappingCache.empty, List.card_toFinset])
    simpa [keys, MappingCache.empty, List.card_toFinset] using h

end MappingCache

namespace Inventory

/-- The inventory after its cache served requests: the store counts the reads that missed. -/
def serveAll (i : Inventory) (rs : List CacheRequest) : Inventory :=
  ⟨{ i.store with
      mappingLookups := i.store.mappingLookups + (i.cache.serveAll i.store.mappings rs).2 },
    (i.cache.serveAll i.store.mappings rs).1⟩

theorem serveAll_append (i : Inventory) (rs qs : List CacheRequest) :
    (i.serveAll rs).serveAll qs = i.serveAll (rs ++ qs) := by
  simp only [serveAll, MappingCache.serveAll_append, Nat.add_assoc]

/-- A read, as decoding makes it, is the cache serving it. -/
theorem afterRead_eq_serveAll (i : Inventory) (p : DatabasePrincipal) :
    i.afterRead p = i.serveAll [.read p] := by
  unfold afterRead serveAll MappingCache.serveAll MappingCache.serveAll MappingCache.serve
  dsimp only
  rcases i.cache.get p with ⟨_ | m, c⟩ <;> rfl

theorem afterReads_eq_serveAll (i : Inventory) (ps : List DatabasePrincipal) :
    i.afterReads ps = i.serveAll (ps.map .read) := by
  induction ps generalizing i with
  | nil => simp [serveAll, MappingCache.serveAll]
  | cons p ps ih =>
    rw [afterReads_cons, ih, afterRead_eq_serveAll, serveAll_append]
    rfl

end Inventory

end AccessReview
