import Mathlib
import AccessReview.Proofs.CacheServe

/-! # Grants decoded row by row

Decoding a securable's permission rows gives, row after row, what each row gives alone
(`rowReference`): nothing for a row whose trimmed state tag is neither `G` nor `W`, nothing for
a holder that resolves to no resource (a database principal without a login, or a principal of
no known kind), and otherwise one grant per code the vocabulary knows, in the row's code order.
A code held with the grant option takes the `-grant` suffix only where the vocabulary's scope
models the option, the server and the database.

Holders are resolved through the mapping cache, which is shared by all the rows. With a cache
that keeps only what the store answers, a row's holder is the one the mapping table gives, and
the mapping is read for exactly the rows that have a known code and a user or group holder
listed in a database (`rowLookup`), in row order; without a cache each such read is one store
lookup (`synthesize_per_row`).
-/

namespace AccessReview

/-! ## The rows, one by one -/

/-- The codes of a row that a vocabulary knows, in the order the row lists them. -/
def knownCodes (v : Vocabulary) (row : PermissionRow) : List String :=
  (splitCodes row.permissions).filter v.contains

/-- The slug a code held in a state takes in a vocabulary: with the grant option, `-grant` is
added in the server and database scopes only. -/
def slugIn (v : Vocabulary) (state : PermissionState) (code : String) : String :=
  match state, v.scope with
  | .withGrantOption, .server | .withGrantOption, .database => code ++ "-grant"
  | _, _ => code

/-- The identity of a row's holder: its type tag read at the scope's principal level, a user or
group listed in a database standing as the login its mapping names. -/
def holderOf (mappings : Table DatabasePrincipal ServerPrincipal) (scope : PermissionScope)
    (row : PermissionRow) : Identity :=
  identityIn mappings row.principalId (PrincipalCategory.ofTag row.principalType scope.principalScope)
    scope.databaseName?

/-- The grants a permission row gives on a resource: none in an unknown state or for a holder
with no resource, else one per known code, in code order. -/
def rowReference (mappings : Table DatabasePrincipal ServerPrincipal) (scope : PermissionScope)
    (resource : ResourceId) (v : Vocabulary) (row : PermissionRow) : List Grant :=
  match PermissionState.ofTag row.state with
  | none => []
  | some state =>
    match holderOf mappings scope row with
    | .noServerPrincipal | .unknown => []
    | .principal r => (knownCodes v row).map fun code => ⟨⟨resource, slugIn v state code⟩, r⟩
    | .role k => (knownCodes v row).map fun code => ⟨⟨resource, slugIn v state code⟩, k.resourceId⟩

/-- The database principal whose mapping decoding a row reads: the holder of a row in a known
state with a code the vocabulary knows, when it is a user or a group listed in a database. -/
def rowLookup (scope : PermissionScope) (v : Vocabulary) (row : PermissionRow) :
    Option DatabasePrincipal :=
  match PermissionState.ofTag row.state,
      PrincipalCategory.ofTag row.principalType scope.principalScope, scope.databaseName? with
  | some _, .user, some db | some _, .group, some db =>
    if knownCodes v row = [] then none else some ⟨db, row.principalId⟩
  | _, _, _ => none

/-- The slug decoding gives a code is the one its state takes in the vocabulary. -/
theorem permissionSlug_held (v : Vocabulary) (state : PermissionState) (code : String) :
    permissionSlug code (if v.scope.supportsGrantOption then state else .granted) =
      slugIn v state code := by
  cases state <;> cases h : v.scope <;> simp [slugIn, permissionSlug, h,
    VocabularyScope.supportsGrantOption, withGrantSuffix]

/-- The slugs of a row are its known codes, each as its state takes it. -/
theorem rowSlugs_eq (v : Vocabulary) (row : PermissionRow) :
    rowSlugs v row = match PermissionState.ofTag row.state with
      | none => []
      | some state => (knownCodes v row).map (slugIn v state) := by
  unfold rowSlugs
  cases PermissionState.ofTag row.state with
  | none => rfl
  | some state =>
    simp only [decodeEntitlements, knownCodes]
    exact List.map_congr_left fun code _ => permissionSlug_held v state code

/-- Decoding a row against the mapping table gives what the row gives alone. -/
theorem rowGrantsIn_eq_rowReference (mappings : Table DatabasePrincipal ServerPrincipal)
    (scope : PermissionScope) (resource : ResourceId) (v : Vocabulary) (row : PermissionRow) :
    rowGrantsIn mappings scope resource v row = rowReference mappings scope resource v row := by
  unfold rowGrantsIn rowReference
  rw [rowSlugs_eq]
  cases PermissionState.ofTag row.state with
  | none => rfl
  | some state =>
    dsimp only
    have hholder : identityIn mappings row.principalId
        (PrincipalCategory.ofTag row.principalType scope.principalScope) scope.databaseName? =
        holderOf mappings scope row := rfl
    rw [hholder]
    by_cases hcodes : knownCodes v row = []
    -- a row with no known code gives nothing, whoever holds it
    · rw [if_pos (by simp [hcodes]), hcodes]
      cases holderOf mappings scope row <;> rfl
    · rw [if_neg (by simpa using hcodes)]
      cases holderOf mappings scope row <;> simp [Identity.resource?]

/-- Decoding a row reads the mapping of its holder exactly when `rowLookup` names one. -/
theorem rowReads_eq_rowLookup (scope : PermissionScope) (v : Vocabulary) (row : PermissionRow) :
    rowReads scope v row = (rowLookup scope v row).toList := by
  unfold rowReads rowLookup
  rw [rowSlugs_eq]
  cases PermissionState.ofTag row.state with
  | none => cases PrincipalCategory.ofTag row.principalType scope.principalScope <;> rfl
  | some state =>
    dsimp only
    by_cases hcodes : knownCodes v row = []
    · rw [if_pos (by simp [hcodes])]
      cases PrincipalCategory.ofTag row.principalType scope.principalScope <;>
        cases scope.databaseName? <;> simp [hcodes]
    · rw [if_neg (by simpa using hcodes)]
      cases PrincipalCategory.ofTag row.principalType scope.principalScope <;>
        cases scope.databaseName? <;> simp [resolveReads, hcodes]

/-! ## Reads without a cache -/

/-- Without a cache every read asks the store: reads of mappings count one lookup each and
change nothing else. -/
theorem Inventory.afterReads_disabled {i : Inventory} (h : i.cache = .empty 0)
    (ps : List DatabasePrincipal) :
    i.afterReads ps =
      { i with store := { i.store with mappingLookups := i.store.mappingLookups + ps.length } } := by
  rw [Inventory.afterReads_eq_serveAll]
  unfold Inventory.serveAll
  rw [h, MappingCache.serveAll_disabled]
  have hreads : (ps.map CacheRequest.read).filterMap CacheRequest.read? = ps := by
    simp [List.filterMap_map, Function.comp_def, CacheRequest.read?]
  rw [hreads]

/-! ## All the rows -/

/-- Decoding permission rows through a cache that keeps only what the store answers gives the
concatenation, in row order, of what each row gives alone, and reads the mappings of exactly the
holders `rowLookup` names, in row order; without a cache, the store answers one lookup per such
row and nothing else changes. -/
theorem synthesize_per_row (scope : PermissionScope) (resource : ResourceId) (v : Vocabulary)
    (rows : List PermissionRow) (i : Inventory) (h : i.cache.Agrees i.store.mappings) :
    (synthesize scope resource v rows).run i =
        (.ok (rows.flatMap (rowReference i.store.mappings scope resource v)),
          i.afterReads (rows.filterMap (rowLookup scope v))) ∧
      (i.cache = .empty 0 → ((synthesize scope resource v rows).run i).2 =
        { i with store := { i.store with mappingLookups :=
            i.store.mappingLookups + (rows.filterMap (rowLookup scope v)).length } }) := by
  have hrun : (synthesize scope resource v rows).run i =
      (.ok (rows.flatMap (rowReference i.store.mappings scope resource v)),
        i.afterReads (rows.filterMap (rowLookup scope v))) := by
    have hgrants : rows.flatMap (rowGrantsIn i.store.mappings scope resource v) =
        rows.flatMap (rowReference i.store.mappings scope resource v) :=
      List.flatMap_congr fun row _ => rowGrantsIn_eq_rowReference _ scope resource v row
    have hreads : rows.flatMap (rowReads scope v) =
        rows.flatMap fun row => (rowLookup scope v row).toList :=
      List.flatMap_congr fun row _ => rowReads_eq_rowLookup scope v row
    rw [synthesize_run_afterReads h, hgrants, hreads, List.filterMap_eq_flatMap_toList]
  refine ⟨hrun, fun hcache => ?_⟩
  rw [hrun]
  exact Inventory.afterReads_disabled hcache _

/-- Rows of the `sales` database decoded with the built-in database vocabulary and no cache: a
user without a login, a user holding two known codes and an unknown one with the grant option
(tags padded), a role, and a denied row. -/
theorem synthesize_per_row_sales :
    let i : Inventory :=
      ⟨{ Store.empty with mappings := ⟨[(⟨⟨"sales"⟩, ⟨5⟩⟩, ⟨⟨259⟩, .user⟩)]⟩ }, .empty 0⟩
    let scope : PermissionScope := .database ⟨"sales"⟩
    let v : Vocabulary := Catalog.builtin.get .database
    let rows : List PermissionRow := [⟨⟨9⟩, "p9", "S", "G", "SL"⟩,
      ⟨⟨5⟩, "p5", " S", "W ", " SL , ZZ,IN"⟩, ⟨⟨16384⟩, "r", "R", "G", "SL"⟩,
      ⟨⟨5⟩, "p5", "S", "D", "SL"⟩]
    i.cache.Agrees i.store.mappings ∧
      ((synthesize scope ⟨.database, "7"⟩ v rows).run i =
          (.ok (rows.flatMap (rowReference i.store.mappings scope ⟨.database, "7"⟩ v)),
            i.afterReads (rows.filterMap (rowLookup scope v))) ∧
        (i.cache = .empty 0 → ((synthesize scope ⟨.database, "7"⟩ v rows).run i).2 =
          { i with store := { i.store with mappingLookups :=
              i.store.mappingLookups + (rows.filterMap (rowLookup scope v)).length } })) := by
  intro i scope v rows
  have hcache : i.cache.Agrees i.store.mappings := MappingCache.agrees_empty 0 _
  exact ⟨hcache, synthesize_per_row scope ⟨.database, "7"⟩ v rows i hcache⟩

end AccessReview
