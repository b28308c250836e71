import Mathlib
import AccessReview.Proofs.Discovery

/-! # Paged permission decoding

The grants of a securable's permission rows come one page per call: each call lists a page of
the stored rows from the cursor it is given and decodes it, and hands back the cursor of the
next page, empty after the last. A caller that starts from the empty cursor and feeds every
next token back (`Connector.permissionPages`) receives, over all its pages, the grants that
decoding all the rows at once gives, in the same order, and leaves the cache and the store's
lookup count as that one decoding leaves them (`Connector.permissionPages_decode`).

Decoding reads the mapping of a row's holder through the cache. With a cache that keeps only
what the store answers, the grants are those the mapping table gives (`rowGrantsIn`), and
what a run leaves is fixed by the list of mappings it read (`Inventory.afterReads`): reading
page after page reads the same mappings in the same order as reading all rows at once.
-/

namespace AccessReview

/-! ## Mapping reads through the cache -/

namespace Inventory

/-- The inventory after one read of a mapping through the cache, as `mappingOf` reads: a hit
leaves the store alone, a miss asks it (one lookup more) and keeps its answer. -/
def afterRead (i : Inventory) (p : DatabasePrincipal) : Inventory :=
  match i.cache.get p with
  | (some _, c) => { i with cache := c }
  | (none, c) => ⟨{ i.store with mappingLookups := i.store.mappingLookups + 1 },
      c.set p (CachedMapping.ofOption (i.store.mappings.find? p))⟩

/-- The inventory after reads of mappings in order. -/
def afterReads (i : Inventory) (ps : List DatabasePrincipal) : Inventory := ps.foldl afterRead i

variable {i : Inventory}

@[simp] theorem afterRead_mappings (p : DatabasePrincipal) :
    (i.afterRead p).store.mappings = i.store.mappings := by
  unfold afterRead
  split <;> rfl

@[simp] theorem afterRead_permissions (p : DatabasePrincipal) :
    (i.afterRead p).store.permissions = i.store.permissions := by
  unfold afterRead
  split <;> rfl

/-- A read keeps a cache that agrees with the mappings agreeing. -/
theorem afterRead_agrees (h : i.cache.Agrees i.store.mappings) (p : DatabasePrincipal) :
    (i.afterRead p).cache.Agrees i.store.mappings := by
  obtain ⟨-, hget⟩ := i.cache.get_agrees h p
  unfold afterRead
  split
  · rename_i hc
    rw [hc] at hget
    exact hget
  · rename_i hc
    rw [hc] at hget
    exact MappingCache.set_agrees hget p

@[simp] theorem afterReads_nil : i.afterReads [] = i := rfl

theorem afterReads_cons (p : DatabasePrincipal) (ps : List DatabasePrincipal) :
    i.afterReads (p :: ps) = (i.afterRead p).afterReads ps := rfl

theorem afterReads_append (ps qs : List DatabasePrincipal) :
    (i.afterReads ps).afterReads qs = i.afterReads (ps ++ qs) :=
  (List.foldl_append ..).symm

@[simp] theorem afterReads_mappings (ps : List DatabasePrincipal) :
    (i.afterReads ps).store.mappings = i.store.mappings := by
  induction ps generalizing i with
  | nil => rfl
  | cons p ps ih => rw [afterReads_cons, ih, afterRead_mappings]

@[simp] theorem afterReads_permissions (ps : List DatabasePrincipal) :
    (i.afterReads ps).store.permissions = i.store.permissions := by
  induction ps generalizing i with
  | nil => rfl
  | cons p ps ih => rw [afterReads_cons, ih, afterRead_permissions]

theorem afterReads_agrees (h : i.cache.Agrees i.store.mappings) (ps : List DatabasePrincipal) :
    (i.afterReads ps).cache.Agrees i.store.mappings := by
  induction ps generalizing i with
  | nil => exact h
  | cons p ps ih =>
    rw [afterReads_cons, ← afterRead_mappings p]
    exact ih (by rw [afterRead_mappings]; exact afterRead_agrees h p)

end Inventory

/-- A mapping read through a cache that agrees with the mappings is the table's answer. -/
theorem mappingOf_run_afterRead {i : Inventory} (h : i.cache.Agrees i.store.mappings)
    (p : DatabasePrincipal) :
    (mappingOf p).run i = (.ok (CachedMapping.ofOption (i.store.mappings.find? p)), i.afterRead p) := by
  obtain ⟨hget, -⟩ := i.cache.get_agrees h p
  unfold mappingOf Inventory.afterRead
  rw [Action.run_bind, Action.run_onCache]
  rcases hc : i.cache.get p with ⟨_ | m, c⟩
  · -- a miss asks the store and keeps its answer
    dsimp only
    rw [Action.run_bind, Action.run_onStore]
    rfl
  · rw [hc] at hget
    have hm : m = CachedMapping.ofOption (i.store.mappings.find? p) := by simpa using hget
    subst hm
    rfl

/-! ## Decoding rows against the mapping table -/

/-- The mappings resolving a principal reads: that of a user or group listed in a database. -/
def resolveReads (id : PrincipalId) (category : PrincipalCategory) (db? : Option DatabaseName) :
    List DatabasePrincipal :=
  match category, db? with
  | .user, some db | .group, some db => [⟨db, id⟩]
  | _, _ => []

/-- Resolving through an agreeing cache reads the mapping of a user or group listed in a
database, and gives the identity the mapping table gives. -/
theorem resolve_run_afterReads {i : Inventory} (h : i.cache.Agrees i.store.mappings)
    (id : PrincipalId) (category : PrincipalCategory) (db? : Option DatabaseName) :
    (resolve id category db?).run i =
      (.ok (identityIn i.store.mappings id category db?),
        i.afterReads (resolveReads id category db?)) := by
  cases db? with
  | none => cases category <;> rfl
  | some db =>
    cases category
    case role | unknown => rfl
    all_goals
      dsimp only [resolve, identityIn, resolveReads]
      rw [Action.run_bind, mappingOf_run_afterRead h]
      simp only [CachedMapping.toOption_ofOption]
      cases i.store.mappings.find? ⟨db, id⟩ <;> rfl

/-- The entitlement slugs a permission row gives: none unless its state tag reads. -/
def rowSlugs (v : Vocabulary) (row : PermissionRow) : List String :=
  match PermissionState.ofTag row.state with
  | none => []
  | some state => decodeEntitlements state row.permissions v

/-- The grants one permission row gives on a resource, its holder read from the mapping
table. -/
def rowGrantsIn (mappings : Table DatabasePrincipal ServerPrincipal) (scope : PermissionScope)
    (resource : ResourceId) (v : Vocabulary) (row : PermissionRow) : List Grant :=
  if (rowSlugs v row).isEmpty then [] else
    match (identityIn mappings row.principalId
        (PrincipalCategory.ofTag row.principalType scope.principalScope)
        scope.databaseName?).resource? with
    | none => []
    | some holder => (rowSlugs v row).map fun slug => ⟨⟨resource, slug⟩, holder⟩

/-- The mappings decoding one row reads: its holder's, when the row gives slugs. -/
def rowReads (scope : PermissionScope) (v : Vocabulary) (row : PermissionRow) :
    List DatabasePrincipal :=
  if (rowSlugs v row).isEmpty then [] else
    resolveReads row.principalId (PrincipalCategory.ofTag row.principalType scope.principalScope)
      scope.databaseName?

theorem rowGrants_run_afterReads {i : Inventory} (h : i.cache.Agrees i.store.mappings)
    (scope : PermissionScope) (resource : ResourceId) (v : Vocabulary) (row : PermissionRow) :
    (rowGrants scope resource v row).run i =
      (.ok (rowGrantsIn i.store.mappings scope resource v row), i.afterReads (rowReads scope v row)) := by
  unfold rowGrants rowGrantsIn rowReads rowSlugs
  cases PermissionState.ofTag row.state with
  | none => rfl
  | some state =>
    dsimp only
    by_cases hs : (decodeEntitlements state row.permissions v).isEmpty
    · rw [if_pos hs, if_pos hs, if_pos hs]
      rfl
    · rw [if_neg hs, if_neg hs, if_neg hs, Action.run_bind, resolve_run_afterReads h]
      dsimp only
      cases (identityIn i.store.mappings row.principalId
        (PrincipalCategory.ofTag row.principalType scope.principalScope)
        scope.databaseName?).resource? <;> rfl

/-- Rows decoded through an agreeing cache give, row after row, the grants the mapping table
gives, and read the mappings of their holders in row order. -/
theorem synthesize_run_afterReads {i : Inventory} (h : i.cache.Agrees i.store.mappings)
    (scope : PermissionScope) (resource : ResourceId) (v : Vocabulary) (rows : List PermissionRow) :
    (synthesize scope resource v rows).run i =
      (.ok (rows.flatMap (rowGrantsIn i.store.mappings scope resource v)),
        i.afterReads (rows.flatMap (rowReads scope v))) := by
  induction rows generalizing i with
  | nil => rfl
  | cons row rest ih =>
    -- the rows after the first are decoded from the inventory the first one left
    have hnext := Inventory.afterReads_agrees h (rowReads scope v row)
    rw [← Inventory.afterReads_mappings (rowReads scope v row)] at hnext
    unfold synthesize
    rw [Action.run_bind, rowGrants_run_afterReads h]
    dsimp only
    rw [Action.run_bind, ih hnext, Inventory.afterReads_mappings]
    dsimp only
    rw [Action.run_pure, Inventory.afterReads_append, List.flatMap_cons, List.flatMap_cons]

/-! ## Pages of a securable's grants -/

/-- The cursor a page call reads from the text of an offset, or from the empty text. -/
theorem cursor_of_offset (o? : Option Nat) :
    (if (Text.trim ((o?.map toString).getD "")).isEmpty then none
      else some (Text.trim ((o?.map toString).getD ""))) = o?.map toString := by
  cases o? with
  | none => rfl
  | some o =>
    have htrim : Text.trim (toString o) = toString o := by
      rw [Text.trim, Text.trimList_toString, String.ofList_toList]
    simp only [Option.map_some, Option.getD_some, htrim]
    rw [if_neg (by simp)]

/-- The page of grants at an offset of a securable's rows (the first page with no offset):
the grants of the rows of the page, and the offset after it when rows are left. -/
theorem permissionGrants_run_at (c : Connector) (scope : PermissionScope) (resource : ResourceId)
    (hint : Nat) {i : Inventory} (h : i.cache.Agrees i.store.mappings) (o? : Option Nat)
    (ho : ∀ o ∈ o?, o < 2 ^ 64) :
    let rows := i.store.permissions.listAt scope
    let limit := pageLimit (c.pageSize hint)
    let page := (rows.drop (o?.getD 0)).take limit
    let v := c.catalog.get scope.vocabularyScope
    (c.permissionGrants scope resource ((o?.map toString).getD "") hint).run i =
      (.ok ⟨page.flatMap (rowGrantsIn i.store.mappings scope resource v),
          if o?.getD 0 + limit < rows.length then toString (o?.getD 0 + limit) else ""⟩,
        i.afterReads (page.flatMap (rowReads scope v))) := by
  intro rows limit page v
  unfold Connector.permissionGrants
  dsimp only
  rw [Action.run_bind, Action.run_store]
  dsimp only
  rw [Action.run_bind, Action.run_ofExcept, cursor_of_offset, Store.listPermissions,
    listing_at _ o? ho]
  dsimp only
  rw [Connector.decodePermissions, Action.run_bind, synthesize_run_afterReads h]
  dsimp only
  rw [Action.run_pure]
  split <;> rfl

/-- A caller following the permission pages of a securable: it asks the page at a cursor and
then, until a page's next token is empty and for at most `calls` calls in all, the page at
the token the last page handed back. -/
def Connector.permissionPages (c : Connector) (scope : PermissionScope) (resource : ResourceId)
    (hint : Nat) : Nat → String → Action (List GrantPage)
  | 0, _ => return []
  | calls + 1, cursor => do
    let page ← c.permissionGrants scope resource cursor hint
    if page.nextToken.isEmpty then return [page]
    else return page :: (← c.permissionPages scope resource hint calls page.nextToken)

section Following

variable (c : Connector) (scope : PermissionScope) (resource : ResourceId) (hint : Nat)

/-- One call of the caller at an offset (the first page with no offset): the page there, then,
when rows are left after it, the calls from the offset after it, on the inventory the page
left. -/
theorem permissionPages_succ {i : Inventory} (h : i.cache.Agrees i.store.mappings)
    (o? : Option Nat) (ho : ∀ o ∈ o?, o < 2 ^ 64) (calls : Nat) :
    let rows := i.store.permissions.listAt scope
    let L := pageLimit (c.pageSize hint)
    let o := o?.getD 0
    let v := c.catalog.get scope.vocabularyScope
    let page := (rows.drop o).take L
    let grants := page.flatMap (rowGrantsIn i.store.mappings scope resource v)
    (c.permissionPages scope resource hint (calls + 1) ((o?.map toString).getD "")).run i =
      if o + L < rows.length then
        Prod.map (Except.map (⟨grants, toString (o + L)⟩ :: ·)) id
          ((c.permissionPages scope resource hint calls (toString (o + L))).run
            (i.afterReads (page.flatMap (rowReads scope v))))
      else (.ok [⟨grants, ""⟩], i.afterReads (page.flatMap (rowReads scope v))) := by
  intro rows L o v page grants
  rw [Connector.permissionPages, Action.run_bind, permissionGrants_run_at c scope resource hint h o? ho]
  dsimp only
  by_cases hmore : o + L < rows.length
  · have hnext : (toString (o + L)).isEmpty = false := by simp
    rw [if_pos hmore, if_pos hmore, hnext, if_neg Bool.false_ne_true, Action.run_bind]
    rcases (c.permissionPages scope resource hint calls (toString (o + L))).run
      (i.afterReads (page.flatMap (rowReads scope v))) with ⟨_ | pages, j⟩ <;> rfl
  · rw [if_neg hmore, if_neg hmore, if_pos (show "".isEmpty = true from rfl)]
    rfl

/-- The caller's pages from the page at an offset (the first page with no offset), with calls
enough for the rows from there: one page for each `limit` rows, one at least, all but the last
handing back a token; the grants of those rows in order; and the mappings of their holders
read in order. -/
theorem permissionPages_run_from :
    ∀ (calls : Nat) {i : Inventory} (o? : Option Nat), i.cache.Agrees i.store.mappings →
      (i.store.permissions.listAt scope).length < 2 ^ 64 →
      (∀ o ∈ o?, o < (i.store.permissions.listAt scope).length) →
      pagesFor (pageLimit (c.pageSize hint))
          ((i.store.permissions.listAt scope).length - o?.getD 0) ≤ calls →
      ∃ pages : List GrantPage,
        (c.permissionPages scope resource hint calls ((o?.map toString).getD "")).run i =
          (.ok pages, i.afterReads (((i.store.permissions.listAt scope).drop (o?.getD 0)).flatMap
            (rowReads scope (c.catalog.get scope.vocabularyScope)))) ∧
        pages.flatMap GrantPage.grants =
          ((i.store.permissions.listAt scope).drop (o?.getD 0)).flatMap
            (rowGrantsIn i.store.mappings scope resource (c.catalog.get scope.vocabularyScope)) ∧
        pages.length = pagesFor (pageLimit (c.pageSize hint))
          ((i.store.permissions.listAt scope).length - o?.getD 0) ∧
        pages.map GrantPage.isLast = List.replicate (pages.length - 1) false ++ [true] := by
  intro calls
  induction calls with
  | zero =>
    intro i o? _ _ _ hcalls
    have : 1 ≤ 0 := le_trans (one_le_pagesFor _ _) hcalls
    omega
  | succ calls ih =>
    intro i o? h hfit ho hcalls
    rw [permissionPages_succ c scope resource hint h o? fun o hmem => lt_trans (ho o hmem) hfit]
    set rows := i.store.permissions.listAt scope with hrows
    set L := pageLimit (c.pageSize hint)
    set v := c.catalog.get scope.vocabularyScope
    set o := o?.getD 0
    have hsplit : ∀ {β : Type} (f : PermissionRow → List β), (rows.drop o).flatMap f =
        ((rows.drop o).take L).flatMap f ++ (rows.drop (o + L)).flatMap f := fun f => by
      rw [← List.flatMap_append, ← List.drop_drop, List.take_append_drop]
    have hpages : pagesFor L (rows.length - o) =
        1 + if o + L < rows.length then pagesFor L (rows.length - (o + L)) else 0 :=
      pagesFor_read (pageLimit_pos _) _ _
    by_cases hmore : o + L < rows.length
    · -- another page follows, at the offset after this one, from the inventory this one left
      have hcalls' : pagesFor L (rows.length - (o + L)) ≤ calls := by
        rw [hpages, if_pos hmore] at hcalls
        omega
      have h' := Inventory.afterReads_agrees h (((rows.drop o).take L).flatMap (rowReads scope v))
      rw [← Inventory.afterReads_mappings (((rows.drop o).take L).flatMap (rowReads scope v))] at h'
      obtain ⟨pages, hrun, hgrants, hlen, hlast⟩ := ih (some (o + L)) h'
        (by simpa only [Inventory.afterReads_permissions] using hfit)
        (by simpa only [Inventory.afterReads_permissions, Option.mem_def, Option.some.injEq,
          forall_eq'] using hmore)
        (by simpa only [Inventory.afterReads_permissions, Option.getD_some] using hcalls')
      simp only [Option.map_some, Option.getD_some, Inventory.afterReads_permissions,
        Inventory.afterReads_mappings, Inventory.afterReads_append, ← hrows] at hrun hgrants hlen
      rw [if_pos hmore, hrun]
      have hpos : 1 ≤ pages.length := hlen ▸ one_le_pagesFor _ _
      refine ⟨⟨((rows.drop o).take L).flatMap (rowGrantsIn i.store.mappings scope resource v),
        toString (o + L)⟩ :: pages, ?_, ?_, ?_, ?_⟩
      · rw [hsplit]
        rfl
      · rw [List.flatMap_cons, hgrants, hsplit]
      · rw [List.length_cons, hlen, hpages, if_pos hmore]
        omega
      · -- this page hands back a token, and the pages after it end with the last one
        obtain ⟨n, hn⟩ : ∃ n, pages.length = n + 1 := ⟨pages.length - 1, by omega⟩
        rw [List.map_cons, hlast, List.length_cons, hn, Nat.add_sub_cancel, Nat.add_sub_cancel,
          List.replicate_succ, List.cons_append]
        simp [GrantPage.isLast]
    · -- this page is the last one: it holds all the rows left
      have hlast : (rows.drop o).take L = rows.drop o :=
        List.take_of_length_le (by simp only [List.length_drop]; omega)
      rw [if_neg hmore, hlast]
      refine ⟨_, rfl, List.flatMap_singleton .., ?_, rfl⟩
      rw [hpages, if_neg hmore]
      rfl

end Following

/-- A caller that follows a securable's permission pages from the empty cursor, with calls
enough, receives one page for each `limit` rows (one at least), all but the last handing back
a token; the grants of its pages, in call order, are those of decoding all the securable's
rows at once, and it leaves the inventory as that decoding leaves it. -/
theorem Connector.permissionPages_decode (c : Connector) (scope : PermissionScope)
    (resource : ResourceId) (hint : Nat) {i : Inventory} (hcache : i.cache.Agrees i.store.mappings)
    (hfit : (i.store.permissions.listAt scope).length < 2 ^ 64) {calls : Nat}
    (hcalls : pagesFor (pageLimit (c.pageSize hint)) (i.store.permissions.listAt scope).length ≤
      calls) :
    let decoded := (c.decodePermissions scope resource (i.store.permissions.listAt scope)).run i
    ∃ pages : List GrantPage,
      (c.permissionPages scope resource hint calls "").run i = (.ok pages, decoded.2) ∧
      decoded.1 = .ok (pages.flatMap GrantPage.grants) ∧
      pages.length = pagesFor (pageLimit (c.pageSize hint)) (i.store.permissions.listAt scope).length ∧
      pages.map GrantPage.isLast = List.replicate (pages.length - 1) false ++ [true] := by
  intro decoded
  obtain ⟨pages, hrun, hgrants, hlen, hlast⟩ :=
    permissionPages_run_from c scope resource hint calls none hcache hfit (fun _ h => nomatch h) hcalls
  have hdecoded : decoded = _ := synthesize_run_afterReads hcache scope resource _ _
  refine ⟨pages, ?_, ?_, hlen, hlast⟩
  · rw [hdecoded]
    exact hrun
  · rw [hdecoded, hgrants]
    rfl

/-- Three rows of a database read two at a time: a user mapped to a login, a user with no
login, and a role. -/
theorem Connector.permissionPages_decode_two_pages :
    let c := Connector.build .builtin .onCompletion 10000 50 1000
    let scope : PermissionScope := .database ⟨"sales"⟩
    let i : Inventory :=
      ⟨(((Store.empty.mapDatabasePrincipal ⟨⟨"sales"⟩, ⟨5⟩⟩ ⟨⟨259⟩, .user⟩).addPermissionRow scope
          ⟨⟨5⟩, "alice", "S", "G", "SL"⟩).addPermissionRow scope
          ⟨⟨6⟩, "bob", "U", "W", "SL, IN"⟩).addPermissionRow scope ⟨⟨7⟩, "readers", "R", "G", "SL"⟩,
        .empty 8⟩
    (i.cache.Agrees i.store.mappings ∧ (i.store.permissions.listAt scope).length < 2 ^ 64 ∧
      pagesFor (pageLimit (c.pageSize 2)) (i.store.permissions.listAt scope).length ≤ 5) ∧
    ∃ pages : List GrantPage,
      (c.permissionPages scope ⟨.database, "1"⟩ 2 5 "").run i =
        (.ok pages, ((c.decodePermissions scope ⟨.database, "1"⟩
          (i.store.permissions.listAt scope)).run i).2) ∧
      ((c.decodePermissions scope ⟨.database, "1"⟩ (i.store.permissions.listAt scope)).run i).1 =
        .ok (pages.flatMap GrantPage.grants) ∧
      pages.length = pagesFor (pageLimit (c.pageSize 2)) (i.store.permissions.listAt scope).length ∧
      pages.map GrantPage.isLast = List.replicate (pages.length - 1) false ++ [true] := by
  intro c scope i
  have hcache : i.cache.Agrees i.store.mappings := MappingCache.agrees_empty 8 _
  have hfit : (i.store.permissions.listAt scope).length < 2 ^ 64 := by decide
  have hcalls : pagesFor (pageLimit (c.pageSize 2)) (i.store.permissions.listAt scope).length ≤ 5 := by
    decide
  exact ⟨⟨hcache, hfit, hcalls⟩,
    Connector.permissionPages_decode c scope ⟨.database, "1"⟩ 2 hcache hfit hcalls⟩

end AccessReview
