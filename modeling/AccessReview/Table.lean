/-!
# Keyed tables

A catalog table maps keys to values. It is kept as a list of pairs in the order the keys
were first written; writing a key that is present replaces its value in place, so each
key stands in the list once and a lookup finds the one value written last.
-/

namespace AccessReview

/-- A table from keys to values, each key once, in the order keys were first written. -/
structure Table (κ ν : Type) where
  /-- The pairs of the table. -/
  rows : List (κ × ν)
  deriving DecidableEq, Repr

namespace Table

variable {κ ν : Type}

/-- The table with no key. -/
def empty : Table κ ν := ⟨[]⟩

/-- The value of the first pair with the key. -/
def valueIn [DecidableEq κ] (k : κ) : List (κ × ν) → Option ν
  | [] => none
  | (k', v) :: rest => if k' = k then some v else valueIn k rest

/-- The pairs with the value of a key replaced, or the pair appended when the key is new. -/
def writeIn [DecidableEq κ] (k : κ) (v : ν) : List (κ × ν) → List (κ × ν)
  | [] => [(k, v)]
  | (k', v') :: rest => if k' = k then (k, v) :: rest else (k', v') :: writeIn k v rest

/-- The value of a key. -/
def find? [DecidableEq κ] (t : Table κ ν) (k : κ) : Option ν := valueIn k t.rows

/-- The table with a key set to a value. -/
def insert [DecidableEq κ] (t : Table κ ν) (k : κ) (v : ν) : Table κ ν := ⟨writeIn k v t.rows⟩

/-- The first key, in table order, whose value satisfies a test. -/
def keyWhere (t : Table κ ν) (p : ν → Bool) : Option κ :=
  (t.rows.find? fun kv => p kv.2).map Prod.fst

/-- The keys of a table, in table order. -/
def keys (t : Table κ ν) : List κ := t.rows.map Prod.fst

/-- The table without a key. -/
def erase [DecidableEq κ] (t : Table κ ν) (k : κ) : Table κ ν :=
  ⟨t.rows.filter fun kv => kv.1 != k⟩

/-- The table keeping the keys that pass a test. -/
def retain (t : Table κ ν) (p : κ → Bool) : Table κ ν :=
  ⟨t.rows.filter fun kv => p kv.1⟩

/-- The list a key holds, empty when the key is absent. -/
def listAt [DecidableEq κ] {ρ : Type} (t : Table κ (List ρ)) (k : κ) : List ρ :=
  (t.find? k).getD []

/-- The table with an item appended to the list a key holds. -/
def append [DecidableEq κ] {ρ : Type} (t : Table κ (List ρ)) (k : κ) (x : ρ) :
    Table κ (List ρ) :=
  t.insert k (t.listAt k ++ [x])

theorem find?_insert_self [DecidableEq κ] (t : Table κ ν) (k : κ) (v : ν) :
    (t.insert k v).find? k = some v := by
  obtain ⟨rows⟩ := t
  simp only [find?, insert]
  induction rows with
  | nil => simp [writeIn, valueIn]
  | cons kv rest ih =>
    obtain ⟨k', v'⟩ := kv
    by_cases h : k' = k
    · simp [writeIn, valueIn, h]
    · simp [writeIn, valueIn, h, ih]

theorem find?_insert_ne [DecidableEq κ] (t : Table κ ν) {k k' : κ} (v : ν) (h : k' ≠ k) :
    (t.insert k v).find? k' = t.find? k' := by
  obtain ⟨rows⟩ := t
  simp only [find?, insert]
  induction rows with
  | nil => simp [writeIn, valueIn, Ne.symm h]
  | cons kv rest ih =>
    obtain ⟨k'', v'⟩ := kv
    by_cases hk : k'' = k
    · subst hk
      simp [writeIn, valueIn, Ne.symm h]
    · simp [writeIn, valueIn, hk, ih]

theorem erase_eq_retain [DecidableEq κ] (t : Table κ ν) (k : κ) :
    t.erase k = t.retain (· != k) :=
  rfl

theorem find?_erase [DecidableEq κ] (t : Table κ ν) (k k' : κ) :
    (t.erase k).find? k' = if k' = k then none else t.find? k' := by
  obtain ⟨rows⟩ := t
  simp only [find?, erase]
  induction rows with
  | nil => simp [valueIn]
  | cons kv rest ih =>
    obtain ⟨k'', v'⟩ := kv
    by_cases hk : k'' = k
    · subst hk
      simp only [List.filter_cons, bne_self_eq_false, Bool.false_eq_true, if_false, ih]
      by_cases hk' : k' = k''
      · simp [hk']
      · simp [valueIn, hk', Ne.symm hk']
    · simp only [List.filter_cons, bne_iff_ne, ne_eq, hk, not_false_eq_true, if_true, valueIn,
        ih]
      by_cases hk' : k' = k
      · subst hk'
        simp [hk]
      · simp [hk']

theorem find?_retain [DecidableEq κ] (t : Table κ ν) (p : κ → Bool) (k : κ) :
    (t.retain p).find? k = if p k then t.find? k else none := by
  obtain ⟨rows⟩ := t
  simp only [find?, retain]
  induction rows with
  | nil => simp [valueIn]
  | cons kv rest ih =>
    obtain ⟨k', v'⟩ := kv
    by_cases hp : p k' = true
    · by_cases hk : k' = k
      · subst hk
        simp [valueIn, hp]
      · simp [valueIn, hp, hk, ih]
    · by_cases hk : k' = k
      · subst hk
        simp [hp, ih]
      · simp [valueIn, hp, hk, ih]

theorem mem_keys [DecidableEq κ] {t : Table κ ν} {k : κ} :
    k ∈ t.keys ↔ (t.find? k).isSome := by
  obtain ⟨rows⟩ := t
  simp only [keys, find?]
  induction rows with
  | nil => simp [valueIn]
  | cons kv rest ih =>
    obtain ⟨k', v'⟩ := kv
    by_cases hk : k' = k
    · simp [valueIn, hk]
    · simp [valueIn, hk, Ne.symm hk, ih]

theorem keys_insert [DecidableEq κ] (t : Table κ ν) (k : κ) (v : ν) :
    (t.insert k v).keys = if k ∈ t.keys then t.keys else t.keys ++ [k] := by
  obtain ⟨rows⟩ := t
  simp only [keys, insert]
  induction rows with
  | nil => simp [writeIn]
  | cons kv rest ih =>
    obtain ⟨k', v'⟩ := kv
    by_cases hk : k' = k
    · simp [writeIn, hk]
    · by_cases hin : k ∈ rest.map Prod.fst
      · simp_all [writeIn, Ne.symm hk]
      · simp_all [writeIn, Ne.symm hk]

theorem keys_erase [DecidableEq κ] (t : Table κ ν) (k : κ) :
    (t.erase k).keys = t.keys.filter (· != k) := by
  simp [keys, erase, List.filter_map, Function.comp_def]

theorem keys_retain (t : Table κ ν) (p : κ → Bool) : (t.retain p).keys = t.keys.filter p := by
  simp [keys, retain, List.filter_map, Function.comp_def]

end Table

end AccessReview
