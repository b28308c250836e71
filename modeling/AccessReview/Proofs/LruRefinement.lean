import Mathlib
import AccessReview.LruTable

/-! # The kept cache is a recency list

`LruTable` keeps the mapping cache as a table and a queue of keys that every operation
updates by hand; `MappingCache` is the same cache as one list from least to most recently
used. Reading the table in the order of the queue (`LruTable.view`) turns the first into the
second.

While the table and the queue are in step (`InStep`: each key once in each, the same keys in
both) every operation answers as the list does and leaves the view where the list's operation
leaves the list. Every operation keeps them in step, and `set` ends within the capacity: its
eviction loop never runs out of queue while the table is too large, since both hold the same
number of keys. Stated once for any two implementations of the cache's operations
(`CacheOps.Simulates`), this gives that from an empty cache every sequence of requests gets the
list's answers, with the table and queue in step and within the capacity after each request
(`LruTable.applyAll_refines`).
-/

namespace AccessReview

section Queue

variable {κ ν : Type} [DecidableEq κ]

/-- The entries of a table in the order of a queue of keys, skipping keys without one. -/
def recency (entries : Table κ ν) (order : List κ) : List (κ × ν) :=
  order.filterMap fun k => (entries.find? k).map (k, ·)

/-- A table and a queue of its keys kept in step: each key once in each, the same keys in
both. -/
structure InStep (entries : Table κ ν) (order : List κ) : Prop where
  keys_nodup : entries.keys.Nodup
  order_nodup : order.Nodup
  mem_order : ∀ k, k ∈ order ↔ k ∈ entries.keys

variable {entries : Table κ ν} {order : List κ}

theorem recency_cons_of_find? {k : κ} {v : ν} (hk : entries.find? k = some v) (rest : List κ) :
    recency entries (k :: rest) = (k, v) :: recency entries rest := by
  simp [recency, hk]

theorem recency_congr {entries' : Table κ ν}
    (h : ∀ k ∈ order, entries.find? k = entries'.find? k) :
    recency entries order = recency entries' order :=
  List.filterMap_congr fun k hk => by rw [h k hk]

/-- Filtering the queue filters the entries it lists. -/
theorem recency_filter (p : κ → Bool) :
    recency entries (order.filter p) = (recency entries order).filter fun kv => p kv.1 := by
  induction order with
  | nil => rfl
  | cons k rest ih =>
    cases hk : entries.find? k with
    | none => by_cases hp : p k <;> simp_all [recency]
    | some v => by_cases hp : p k <;> simp_all [recency]

/-- A key of the queue is listed with its entry; any other key is not listed. -/
theorem find?_recency (k : κ) :
    (recency entries order).find? (·.1 == k) =
      if k ∈ order then (entries.find? k).map (k, ·) else none := by
  induction order with
  | nil => rfl
  | cons k' rest ih =>
    by_cases hk : k' = k
    · subst hk
      cases hv : entries.find? k' with
      | none => simp_all [recency]
      | some v => simp [recency, hv]
    · have hk' : k ≠ k' := Ne.symm hk
      cases hv : entries.find? k' with
      | none => simp_all [recency]
      | some v => simp_all [recency]

/-- When every key of the queue has an entry, the listed keys are the queue. -/
theorem map_fst_recency (h : ∀ k ∈ order, k ∈ entries.keys) :
    (recency entries order).map Prod.fst = order := by
  induction order with
  | nil => rfl
  | cons k rest ih =>
    obtain ⟨v, hv⟩ := Option.isSome_iff_exists.1 (Table.mem_keys.1 (h k List.mem_cons_self))
    rw [recency_cons_of_find? hv, List.map_cons, ih fun k' hk' => h k' (List.mem_cons_of_mem _ hk')]

theorem recency_retain (p : κ → Bool) :
    recency (entries.retain p) (order.filter p) =
      (recency entries order).filter fun kv => p kv.1 := by
  rw [← recency_filter]
  apply recency_congr
  intro k hk
  rw [Table.find?_retain, if_pos (List.mem_filter.1 hk).2]

namespace InStep

variable (h : InStep entries order)
include h

theorem find?_recency_eq_map (k : κ) :
    (recency entries order).find? (·.1 == k) = (entries.find? k).map (k, ·) := by
  rw [find?_recency]
  split
  · rfl
  · next hk =>
    have hnone : entries.find? k = none := by
      rw [← Option.not_isSome_iff_eq_none, ← Table.mem_keys, ← h.mem_order]
      exact hk
    rw [hnone]
    rfl

omit [DecidableEq κ] in
/-- The table has as many entries as the queue has keys. -/
theorem length_rows : entries.rows.length = order.length := by
  have hperm : order.Perm entries.keys :=
    (List.perm_ext_iff_of_nodup h.order_nodup h.keys_nodup).2 h.mem_order
  rw [hperm.length_eq, Table.keys, List.length_map]

/-- The recency list has as many pairs as the table has entries. -/
theorem length_recency : (recency entries order).length = entries.rows.length := by
  have hkeys := map_fst_recency fun k hk => (h.mem_order k).1 hk
  calc (recency entries order).length = ((recency entries order).map Prod.fst).length :=
        (List.length_map _).symm
    _ = order.length := by rw [hkeys]
    _ = entries.rows.length := h.length_rows.symm

omit [DecidableEq κ] in
theorem retain (p : κ → Bool) : InStep (entries.retain p) (order.filter p) where
  keys_nodup := by
    rw [Table.keys_retain]
    exact h.keys_nodup.filter p
  order_nodup := h.order_nodup.filter p
  mem_order k := by rw [Table.keys_retain, List.mem_filter, List.mem_filter, h.mem_order]

end InStep

/-- Dropping the key at the front of the queue and its entry keeps the two in step. -/
theorem InStep.evict {k : κ} {rest : List κ} (h : InStep entries (k :: rest)) :
    InStep (entries.erase k) rest := by
  have hrest : (k :: rest).filter (· != k) = rest := by
    have hk : k ∉ rest := (List.nodup_cons.1 h.order_nodup).1
    rw [List.filter_cons_of_neg (by simp), List.filter_eq_self]
    intro k' hk'
    simpa using ne_of_mem_of_not_mem hk' hk
  have := h.retain (· != k)
  rwa [hrest, ← Table.erase_eq_retain] at this

end Queue

section Touch

variable {entries : Table DatabasePrincipal CachedMapping} {order : List DatabasePrincipal}
  {k : DatabasePrincipal}

theorem mem_touch {k' : DatabasePrincipal} :
    k' ∈ LruTable.touch order k ↔ k' ∈ order ∨ k' = k := by
  by_cases hk : k' = k <;> simp [LruTable.touch, hk]

theorem nodup_touch (h : order.Nodup) : (LruTable.touch order k).Nodup := by
  rw [LruTable.touch, ← List.concat_eq_append]
  exact (h.filter _).concat (by simp)

/-- Moving a key of the queue to the back keeps the queue's keys. -/
theorem mem_touch_of_mem (hk : k ∈ order) {k' : DatabasePrincipal} :
    k' ∈ LruTable.touch order k ↔ k' ∈ order := by
  rw [mem_touch]
  constructor
  · rintro (hk' | rfl)
    · exact hk'
    · exact hk
  · exact Or.inl

/-- Moving a key with an entry to the back of the queue moves its pair to the back of the
list. -/
theorem recency_touch {m : CachedMapping} (hk : entries.find? k = some m) :
    recency entries (LruTable.touch order k) =
      (recency entries order).filter (·.1 != k) ++ [(k, m)] := by
  rw [LruTable.touch, recency, List.filterMap_append, ← recency, recency_filter]
  simp [hk]

theorem recency_insert_touch (m : CachedMapping) :
    recency (entries.insert k m) (LruTable.touch order k) =
      (recency entries order).filter (·.1 != k) ++ [(k, m)] := by
  rw [recency_touch (Table.find?_insert_self entries k m), ← recency_filter (· != k),
    ← recency_filter (· != k)]
  congr 1
  apply recency_congr
  intro k' hk'
  exact Table.find?_insert_ne _ _ (by simpa using (List.mem_filter.1 hk').2)

theorem InStep.touch (h : InStep entries order) (hk : k ∈ entries.keys) :
    InStep entries (LruTable.touch order k) where
  keys_nodup := h.keys_nodup
  order_nodup := nodup_touch h.order_nodup
  mem_order k' := by rw [mem_touch_of_mem ((h.mem_order k).2 hk), h.mem_order]

theorem InStep.insert_touch (h : InStep entries order) (m : CachedMapping) :
    InStep (entries.insert k m) (LruTable.touch order k) where
  keys_nodup := by
    rw [Table.keys_insert]
    split
    · exact h.keys_nodup
    · next hk =>
      rw [← List.concat_eq_append]
      exact h.keys_nodup.concat hk
  order_nodup := nodup_touch h.order_nodup
  mem_order k' := by
    rw [Table.keys_insert]
    split
    · next hk => rw [mem_touch_of_mem ((h.mem_order k).2 hk), h.mem_order]
    · rw [mem_touch, h.mem_order, List.mem_append, List.mem_singleton]

end Touch

theorem keepRecent_of_length_le {n : Nat} {l : List (DatabasePrincipal × CachedMapping)}
    (h : l.length ≤ n) : keepRecent n l = l := by
  rw [keepRecent, Nat.sub_eq_zero_of_le h, List.drop_zero]

/-- Over the capacity, the front entry is the first dropped. -/
theorem keepRecent_cons {n : Nat} (x : DatabasePrincipal × CachedMapping)
    {l : List (DatabasePrincipal × CachedMapping)} (h : n ≤ l.length) :
    keepRecent n (x :: l) = keepRecent n l := by
  have hdrop : (x :: l).length - n = (l.length - n) + 1 := by
    rw [List.length_cons]
    omega
  rw [keepRecent, hdrop, List.drop_succ_cons, keepRecent]

/-- Evicting from the front of a queue in step with its table keeps the two in step and drops
the least recent pairs of the recency list down to the capacity. -/
theorem evictOver_inStep (c : Nat) :
    ∀ {entries : Table DatabasePrincipal CachedMapping} {order : List DatabasePrincipal},
      InStep entries order →
        InStep (LruTable.evictOver c entries order).1 (LruTable.evictOver c entries order).2 ∧
        recency (LruTable.evictOver c entries order).1 (LruTable.evictOver c entries order).2 =
          keepRecent c (recency entries order) ∧
        (LruTable.evictOver c entries order).1.rows.length ≤ c
  | entries, [], h => by
    have hempty : entries.rows.length = 0 := h.length_rows
    simp only [LruTable.evictOver]
    exact ⟨h, by simp [recency, keepRecent], by omega⟩
  | entries, k :: rest, h => by
    -- the loop goes on exactly while the table is over capacity; the queue then still has a key
    by_cases hover : c < entries.rows.length
    · obtain ⟨v, hv⟩ := Option.isSome_iff_exists.1
        (Table.mem_keys.1 ((h.mem_order k).1 List.mem_cons_self))
      have hrest : recency (entries.erase k) rest = recency entries rest := by
        apply recency_congr
        intro k' hk'
        have hne : k' ≠ k := ne_of_mem_of_not_mem hk' (List.nodup_cons.1 h.order_nodup).1
        rw [Table.find?_erase, if_neg hne]
      have hlen : c ≤ (recency entries rest).length := by
        have := h.length_recency
        rw [recency_cons_of_find? hv, List.length_cons] at this
        omega
      obtain ⟨hstep, hrec, hle⟩ := evictOver_inStep c h.evict
      rw [LruTable.evictOver, if_pos hover]
      refine ⟨hstep, ?_, hle⟩
      rw [hrec, hrest, recency_cons_of_find? hv, keepRecent_cons _ hlen]
    · have hfits : (recency entries (k :: rest)).length ≤ c := by
        rw [h.length_recency]
        omega
      rw [LruTable.evictOver, if_neg hover]
      exact ⟨h, (keepRecent_of_length_le hfits).symm, by dsimp only; omega⟩

/-- The operations of a mapping cache, over the state that keeps it. -/
structure CacheOps (σ : Type) where
  /-- The kept outcome for a key, and the state after the lookup. -/
  get : σ → DatabasePrincipal → Option CachedMapping × σ
  /-- Keeps an outcome for a key. -/
  set : σ → DatabasePrincipal → CachedMapping → σ
  /-- Forgets one key. -/
  invalidatePrincipal : σ → DatabasePrincipal → σ
  /-- Forgets every key of a database. -/
  invalidateDatabase : σ → DatabaseName → σ
  /-- The number of entries. -/
  size : σ → Nat

namespace CacheOps

variable {σ τ : Type}

/-- Carries out a cache request with the given operations; database names are checked
first. -/
def apply (ops : CacheOps σ) (s : σ) : CacheCommand → CacheReply × σ
  | .set db p m =>
    match DatabaseName.parse db with
    | .error e => (.refused e, s)
    | .ok d => (.done, ops.set s ⟨d, p⟩ m)
  | .get db p =>
    match DatabaseName.parse db with
    | .error e => (.refused e, s)
    | .ok d =>
      match ops.get s ⟨d, p⟩ with
      | (some m, s) => (.found m, s)
      | (none, s) => (.miss, s)
  | .invalidatePrincipal db p =>
    match DatabaseName.parse db with
    | .error e => (.refused e, s)
    | .ok d => (.done, ops.invalidatePrincipal s ⟨d, p⟩)
  | .invalidateDatabase db =>
    match DatabaseName.parse db with
    | .error e => (.refused e, s)
    | .ok d => (.done, ops.invalidateDatabase s d)
  | .size => (.count (ops.size s), s)

/-- Carries out requests in order, answering each. -/
def applyAll (ops : CacheOps σ) (s : σ) : List CacheCommand → List CacheReply × σ
  | [] => ([], s)
  | cmd :: rest =>
    let first := ops.apply s cmd
    let after := ops.applyAll first.2 rest
    (first.1 :: after.1, after.2)

/-- One implementation of the operations answers as another on states related by `R`, and
keeps them related. -/
structure Simulates (ops : CacheOps σ) (spec : CacheOps τ) (R : σ → τ → Prop) : Prop where
  get {s a} (k : DatabasePrincipal) :
    R s a → (ops.get s k).1 = (spec.get a k).1 ∧ R (ops.get s k).2 (spec.get a k).2
  set {s a} (k : DatabasePrincipal) (m : CachedMapping) :
    R s a → R (ops.set s k m) (spec.set a k m)
  invalidatePrincipal {s a} (k : DatabasePrincipal) :
    R s a → R (ops.invalidatePrincipal s k) (spec.invalidatePrincipal a k)
  invalidateDatabase {s a} (db : DatabaseName) :
    R s a → R (ops.invalidateDatabase s db) (spec.invalidateDatabase a db)
  size {s a} : R s a → ops.size s = spec.size a

variable {ops : CacheOps σ} {spec : CacheOps τ} {R : σ → τ → Prop}

theorem Simulates.apply (hsim : ops.Simulates spec R) {s : σ} {a : τ} (hR : R s a)
    (cmd : CacheCommand) :
    (ops.apply s cmd).1 = (spec.apply a cmd).1 ∧ R (ops.apply s cmd).2 (spec.apply a cmd).2 := by
  cases cmd with
  | set db p m =>
    simp only [CacheOps.apply]
    cases DatabaseName.parse db with
    | error e => exact ⟨rfl, hR⟩
    | ok d => exact ⟨rfl, hsim.set _ m hR⟩
  | get db p =>
    simp only [CacheOps.apply]
    cases DatabaseName.parse db with
    | error e => exact ⟨rfl, hR⟩
    | ok d =>
      dsimp only
      obtain ⟨hanswer, hrel⟩ := hsim.get ⟨d, p⟩ hR
      -- both lookups give the same answer, so both take the same branch
      cases hs : ops.get s ⟨d, p⟩ with
      | mk r s' =>
        cases ha : spec.get a ⟨d, p⟩ with
        | mk r' a' =>
          rw [hs, ha] at hanswer hrel
          simp only at hanswer hrel
          subst hanswer
          cases r with
          | none => exact ⟨rfl, hrel⟩
          | some m => exact ⟨rfl, hrel⟩
  | invalidatePrincipal db p =>
    simp only [CacheOps.apply]
    cases DatabaseName.parse db with
    | error e => exact ⟨rfl, hR⟩
    | ok d => exact ⟨rfl, hsim.invalidatePrincipal _ hR⟩
  | invalidateDatabase db =>
    simp only [CacheOps.apply]
    cases DatabaseName.parse db with
    | error e => exact ⟨rfl, hR⟩
    | ok d => exact ⟨rfl, hsim.invalidateDatabase _ hR⟩
  | size => exact ⟨congrArg _ (hsim.size hR), hR⟩

/-- Related states answer every sequence of requests alike and end related. -/
theorem Simulates.applyAll (hsim : ops.Simulates spec R) :
    ∀ {s : σ} {a : τ}, R s a → ∀ cmds : List CacheCommand,
      (ops.applyAll s cmds).1 = (spec.applyAll a cmds).1 ∧
        R (ops.applyAll s cmds).2 (spec.applyAll a cmds).2
  | _, _, hR, [] => ⟨rfl, hR⟩
  | s, a, hR, cmd :: rest => by
    obtain ⟨hfirst, hrel⟩ := hsim.apply hR cmd
    obtain ⟨hafter, hend⟩ := hsim.applyAll hrel rest
    simp only [CacheOps.applyAll]
    exact ⟨by rw [hfirst, hafter], hend⟩

end CacheOps

/-- The list's operations. -/
def MappingCache.ops : CacheOps MappingCache :=
  ⟨MappingCache.get, MappingCache.set, MappingCache.invalidatePrincipal,
    MappingCache.invalidateDatabase, MappingCache.size⟩

theorem MappingCache.apply_eq_ops (c : MappingCache) (cmd : CacheCommand) :
    c.apply cmd = MappingCache.ops.apply c cmd := by
  cases cmd with
  | get db p =>
    simp only [MappingCache.apply, CacheOps.apply, MappingCache.ops]
    cases DatabaseName.parse db with
    | error e => rfl
    | ok d =>
      dsimp only
      cases c.get ⟨d, p⟩ with
      | mk r c' => cases r <;> rfl
  | _ => rfl

theorem MappingCache.applyAll_eq_ops (c : MappingCache) (cmds : List CacheCommand) :
    c.applyAll cmds = MappingCache.ops.applyAll c cmds := by
  induction cmds generalizing c with
  | nil => rfl
  | cons cmd rest ih =>
    simp only [MappingCache.applyAll, CacheOps.applyAll, apply_eq_ops, ih]

namespace LruTable

/-- The cache as a list: the entries in the order of the queue. -/
def view (t : LruTable) : MappingCache := ⟨t.capacity, recency t.entries t.order⟩

/-- The kept cache's operations. -/
def ops : CacheOps LruTable :=
  ⟨LruTable.get, LruTable.set, LruTable.invalidatePrincipal, LruTable.invalidateDatabase,
    LruTable.size⟩

/-- A kept cache of capacity `n`: table and queue in step, at most `n` entries. -/
structure Kept (n : Nat) (t : LruTable) : Prop where
  inStep : InStep t.entries t.order
  capacity_eq : t.capacity = n
  size_le : t.size ≤ n

variable {t : LruTable} {n : Nat}

theorem Kept.size_view (h : t.Kept n) : t.view.size = t.size :=
  h.inStep.length_recency

theorem get_view (h : InStep t.entries t.order) (k : DatabasePrincipal) :
    (t.get k).1 = (t.view.get k).1 ∧ (t.get k).2.view = (t.view.get k).2 := by
  have hfind := h.find?_recency_eq_map k
  by_cases hcap : t.capacity = 0
  · simp [get, MappingCache.get, view, hcap]
  · cases hk : t.entries.find? k with
    | none =>
      rw [hk] at hfind
      simp [get, MappingCache.get, view, hcap, hk, hfind]
    | some m =>
      rw [hk] at hfind
      simp [get, MappingCache.get, view, hcap, hk, hfind, recency_touch hk]

theorem Kept.get (h : t.Kept n) (k : DatabasePrincipal) : (t.get k).2.Kept n := by
  by_cases hcap : t.capacity = 0
  · simpa [LruTable.get, hcap] using h
  · cases hk : t.entries.find? k with
    | none => simpa [LruTable.get, hcap, hk] using h
    | some m =>
      simp only [LruTable.get, hcap, hk, beq_iff_eq, if_false]
      have hmem : k ∈ t.entries.keys := Table.mem_keys.2 (by simp [hk])
      exact ⟨h.inStep.touch hmem, h.capacity_eq, h.size_le⟩

theorem set_view (h : InStep t.entries t.order) (k : DatabasePrincipal) (m : CachedMapping) :
    (t.set k m).view = t.view.set k m := by
  by_cases hcap : t.capacity = 0
  · simp [set, MappingCache.set, view, hcap]
  · obtain ⟨-, hrec, -⟩ := evictOver_inStep t.capacity (h.insert_touch (k := k) m)
    simp only [set, MappingCache.set, view, hcap, beq_iff_eq, if_false, hrec,
      recency_insert_touch]

theorem Kept.set (h : t.Kept n) (k : DatabasePrincipal) (m : CachedMapping) :
    (t.set k m).Kept n := by
  by_cases hcap : t.capacity = 0
  · simpa [LruTable.set, hcap] using h
  · obtain ⟨hstep, -, hle⟩ := evictOver_inStep t.capacity (h.inStep.insert_touch (k := k) m)
    simp only [LruTable.set, hcap, beq_iff_eq, if_false]
    exact ⟨hstep, h.capacity_eq, h.capacity_eq ▸ hle⟩

theorem invalidatePrincipal_view (h : InStep t.entries t.order) (k : DatabasePrincipal) :
    (t.invalidatePrincipal k).view = t.view.invalidatePrincipal k := by
  cases hk : t.entries.find? k with
  | none =>
    -- a key without an entry is not in the queue, so filtering it out changes nothing
    have hout : k ∉ t.order := by
      rw [h.mem_order, Table.mem_keys, hk]
      simp
    have hkeep : t.order.filter (· != k) = t.order := by
      rw [List.filter_eq_self]
      intro k' hk'
      simpa using ne_of_mem_of_not_mem hk' hout
    simp only [invalidatePrincipal, MappingCache.invalidatePrincipal, view, hk]
    rw [← recency_filter (· != k), hkeep]
  | some m =>
    simp only [invalidatePrincipal, MappingCache.invalidatePrincipal, view, hk,
      Table.erase_eq_retain, recency_retain]

theorem Kept.invalidatePrincipal (h : t.Kept n) (k : DatabasePrincipal) :
    (t.invalidatePrincipal k).Kept n := by
  cases hk : t.entries.find? k with
  | none => simpa [LruTable.invalidatePrincipal, hk] using h
  | some m =>
    simp only [LruTable.invalidatePrincipal, hk]
    refine ⟨?_, h.capacity_eq, ?_⟩
    · rw [Table.erase_eq_retain]
      exact h.inStep.retain (· != k)
    · exact le_trans (List.length_filter_le _ _) h.size_le

theorem invalidateDatabase_view (db : DatabaseName) :
    (t.invalidateDatabase db).view = t.view.invalidateDatabase db := by
  simp only [invalidateDatabase, MappingCache.invalidateDatabase, view, recency_retain]

theorem Kept.invalidateDatabase (h : t.Kept n) (db : DatabaseName) :
    (t.invalidateDatabase db).Kept n :=
  ⟨h.inStep.retain (·.db != db), h.capacity_eq, le_trans (List.length_filter_le _ _) h.size_le⟩

/-- The kept cache answers as its view and keeps standing for it. -/
theorem simulates (n : Nat) :
    ops.Simulates MappingCache.ops fun t c => t.Kept n ∧ t.view = c where
  get := by
    rintro t _ k ⟨h, rfl⟩
    obtain ⟨hanswer, hview⟩ := get_view h.inStep k
    exact ⟨hanswer, h.get k, hview⟩
  set := by
    rintro t _ k m ⟨h, rfl⟩
    exact ⟨h.set k m, set_view h.inStep k m⟩
  invalidatePrincipal := by
    rintro t _ k ⟨h, rfl⟩
    exact ⟨h.invalidatePrincipal k, invalidatePrincipal_view h.inStep k⟩
  invalidateDatabase := by
    rintro t _ db ⟨h, rfl⟩
    exact ⟨h.invalidateDatabase db, invalidateDatabase_view db⟩
  size := by
    rintro t _ ⟨h, rfl⟩
    exact h.size_view.symm

/-- From an empty cache of any capacity, every sequence of requests gets the answers of the
recency list, and after it the table and queue are in step, stand for the list and hold at most
the capacity. -/
theorem applyAll_refines (capacity : Nat) (cmds : List CacheCommand) :
    let kept := ops.applyAll (empty capacity) cmds
    let list := (MappingCache.empty capacity).applyAll cmds
    kept.1 = list.1 ∧ kept.2.view = list.2 ∧
      kept.2.entries.keys.Nodup ∧ kept.2.order.Nodup ∧
      (∀ k, k ∈ kept.2.order ↔ k ∈ kept.2.entries.keys) ∧ kept.2.size ≤ capacity := by
  have hstart :
      (empty capacity).Kept capacity ∧ (empty capacity).view = MappingCache.empty capacity :=
    ⟨⟨⟨List.nodup_nil, List.nodup_nil, by simp [empty, Table.empty, Table.keys]⟩, rfl,
      Nat.zero_le _⟩, rfl⟩
  obtain ⟨hanswers, ⟨h, hview⟩⟩ := (simulates capacity).applyAll hstart cmds
  rw [← MappingCache.applyAll_eq_ops] at hanswers hview
  exact ⟨hanswers, hview, h.inStep.keys_nodup, h.inStep.order_nodup, h.inStep.mem_order,
    h.size_le⟩

/- Key 1 is read after key 2 is written, so writing key 3 past the capacity evicts key 2. -/
example :
    (ops.applyAll (empty 2)
      [.set "app" ⟨1⟩ .unmapped, .set "app" ⟨2⟩ .unmapped, .get "app" ⟨1⟩,
        .set "app" ⟨3⟩ .unmapped, .get "app" ⟨2⟩, .size]).1 =
      [.done, .done, .found .unmapped, .done, .miss, .count 2] := by
  decide

end LruTable

end AccessReview
