import AccessReview.Connector
import AccessReview.Proofs.TokenState

/-! # Traversal calls over a fixed catalog

    A traversal call reads its member page through the inventory: the store counts the page,
    and member identities are resolved through the mapping cache, which asks the store on a
    miss and keeps its answer. This file takes both effects out of the picture. When the
    inventory serves a fixed catalog and its cache keeps only what the store answers
    (`Inventory.Matches`), a call gives what the pure step `advance` gives, with identities
    read from the mapping table directly (`memberIdentity`), the catalog and the cache
    agreement are kept, and the store has served exactly one more member page
    (`walkStep_run`, `roleGrants_run`).

    A page's harvest is described once (`gather_grants`, `mem_gather_found`): its grants are
    the resources of its members' identities in row order, and the roles it queues are those
    its members name that the token admits, each once.
-/

namespace AccessReview

/-! ## Runs of actions -/

namespace Action

variable {α β : Type}

/-- An action followed by another, run: the second runs on what the first leaves, unless the
first fails. -/
theorem run_bind (x : Action α) (f : α → Action β) (i : Inventory) :
    (x >>= f).run i = match x.run i with
      | (.ok a, i') => (f a).run i'
      | (.error e, i') => (.error e, i') := by
  simp only [Action.run, ExceptT.run_bind, StateT.run_bind]
  rcases h : (ExceptT.run x).run i with ⟨r, i'⟩
  cases r <;> rfl

/-- A value returned outright changes nothing. -/
theorem run_pure (a : α) (i : Inventory) : (pure a : Action α).run i = (.ok a, i) := rfl

/-- A computed outcome changes nothing. -/
theorem run_ofExcept (r : Except Error α) (i : Inventory) : (ofExcept r).run i = (r, i) := rfl

/-- A failure changes nothing. -/
theorem run_fail (e : Error) (i : Inventory) : (fail e : Action α).run i = (.error e, i) := rfl

/-- A step on the store changes the store only. -/
theorem run_onStore (f : Store → α × Store) (i : Inventory) :
    (onStore f).run i = (.ok (f i.store).1, { i with store := (f i.store).2 }) := rfl

/-- A step on the cache changes the cache only. -/
theorem run_onCache (f : MappingCache → α × MappingCache) (i : Inventory) :
    (onCache f).run i = (.ok (f i.cache).1, { i with cache := (f i.cache).2 }) := rfl

/-- Reading the store changes nothing. -/
theorem run_store (i : Inventory) : Action.store.run i = (.ok i.store, i) := rfl

/-- A failing check before a result, run. -/
theorem run_check (c : Prop) [Decidable c] (e : Error) (v : α) (i : Inventory) :
    (if c then (fail e : Action PUnit) >>= (fun _ => pure v) else pure v).run i =
      (if c then .error e else .ok v, i) := by
  by_cases hc : c
  · rw [if_pos hc, if_pos hc]
    rfl
  · rw [if_neg hc, if_neg hc]
    rfl

end Action

/-! ## A cache that keeps what the store answers -/

/-- Every outcome the cache keeps is the one the mapping table gives. -/
def MappingCache.Agrees (c : MappingCache) (mappings : Table DatabasePrincipal ServerPrincipal) :
    Prop :=
  ∀ e ∈ c.entries, e.2 = CachedMapping.ofOption (mappings.find? e.1)

section Agrees

variable {c : MappingCache} {tbl : Table DatabasePrincipal ServerPrincipal}

/-- A lookup in an agreeing cache misses or finds the table's answer, and the cache still
agrees. -/
theorem MappingCache.get_agrees (h : c.Agrees tbl) (k : DatabasePrincipal) :
    ((c.get k).1 = none ∨ (c.get k).1 = some (CachedMapping.ofOption (tbl.find? k))) ∧
      (c.get k).2.Agrees tbl := by
  unfold MappingCache.get
  by_cases hcap : c.capacity == 0
  · rw [if_pos hcap]
    exact ⟨.inl rfl, h⟩
  rw [if_neg hcap]
  cases hf : c.entries.find? (·.1 == k) with
  | none => exact ⟨.inl rfl, h⟩
  | some e =>
    obtain ⟨k', m⟩ := e
    have hmem : (k', m) ∈ c.entries := List.mem_of_find?_eq_some hf
    have hk : k' = k := by simpa using List.find?_some hf
    subst hk
    refine ⟨.inr ?_, ?_⟩
    · show some m = _
      exact congrArg some (h _ hmem)
    intro e he
    simp only [List.mem_append, List.mem_filter, List.mem_singleton] at he
    rcases he with ⟨he, _⟩ | rfl
    · exact h e he
    · exact h _ hmem

/-- Keeping the table's answer keeps the cache agreeing. -/
theorem MappingCache.set_agrees (h : c.Agrees tbl) (k : DatabasePrincipal) :
    (c.set k (CachedMapping.ofOption (tbl.find? k))).Agrees tbl := by
  unfold MappingCache.set
  by_cases hcap : c.capacity == 0
  · rw [if_pos hcap]
    exact h
  rw [if_neg hcap]
  intro e he
  have he' : e ∈ c.entries.filter (·.1 != k) ++ [(k, CachedMapping.ofOption (tbl.find? k))] :=
    List.mem_of_mem_drop he
  simp only [List.mem_append, List.mem_filter, List.mem_singleton] at he'
  rcases he' with ⟨he', _⟩ | rfl
  · exact h e he'
  · rfl

end Agrees

/-! ## Inventories over a fixed catalog -/

/-- An inventory serving the catalog of `st` (its members and mappings), having served `n`
member pages, with a cache that keeps only what the store answers. -/
structure Inventory.Matches (i : Inventory) (st : Store) (n : Nat) : Prop where
  /-- The members are those of `st`. -/
  members : i.store.members = st.members
  /-- The mappings are those of `st`. -/
  mappings : i.store.mappings = st.mappings
  /-- The member pages served. -/
  fetches : i.store.memberFetches = n
  /-- The cache agrees with the mappings. -/
  cache : i.cache.Agrees st.mappings

/-- A mapping is read through the cache as the store gives it. -/
theorem mappingOf_run {i : Inventory} {st : Store} {n : Nat} (h : i.Matches st n)
    (p : DatabasePrincipal) :
    ∃ i', (mappingOf p).run i = (.ok (CachedMapping.ofOption (st.mappings.find? p)), i') ∧
      i'.Matches st n := by
  obtain ⟨hget, hcache⟩ := MappingCache.get_agrees h.cache p
  unfold mappingOf
  rw [Action.run_bind, Action.run_onCache]
  rcases hget with hnone | hsome
  · -- a miss asks the store and keeps its answer
    simp only [hnone]
    rw [Action.run_bind, Action.run_onStore]
    simp only [Store.serverPrincipalFor, h.mappings]
    rw [Action.run_bind, Action.run_onCache]
    refine ⟨_, rfl, ⟨h.members, rfl, h.fetches, ?_⟩⟩
    exact MappingCache.set_agrees hcache p
  · simp only [hsome]
    exact ⟨_, rfl, ⟨h.members, h.mappings, h.fetches, hcache⟩⟩

/-! ## Identities without the cache -/

/-- The identity `resolve` gives, read from the mapping table directly. -/
def identityIn (mappings : Table DatabasePrincipal ServerPrincipal) (id : PrincipalId)
    (category : PrincipalCategory) (db? : Option DatabaseName) : Identity :=
  match category, db? with
  | .unknown, _ => .unknown
  | .role, none => .role (.server id)
  | .role, some db => .role (.database db id)
  | c, none => ((c.loginResource id).map Identity.principal).getD .unknown
  | _, some db =>
    match mappings.find? ⟨db, id⟩ with
    | none => .noServerPrincipal
    | some server => server.identity

/-- The identity of a member row of role `k`, from the store's mappings. -/
def memberIdentity (st : Store) (k : RoleKey) (m : MemberRow) : Identity :=
  identityIn st.mappings m.id (PrincipalCategory.ofTag m.typeTag k.scope) k.databaseName?

/-- Keeping a lookup's answer in the cache loses nothing of it. -/
@[simp] theorem CachedMapping.toOption_ofOption (o : Option ServerPrincipal) :
    (CachedMapping.ofOption o).toOption = o := by
  cases o <;> rfl

/-- Resolving through an agreeing cache gives the identity the mappings give. -/
theorem resolve_run {i : Inventory} {st : Store} {n : Nat} (h : i.Matches st n)
    (id : PrincipalId) (category : PrincipalCategory) (db? : Option DatabaseName) :
    ∃ i', (resolve id category db?).run i = (.ok (identityIn st.mappings id category db?), i') ∧
      i'.Matches st n := by
  cases db? with
  | none => cases category <;> exact ⟨i, rfl, h⟩
  | some db =>
    obtain ⟨i', hrun, h'⟩ := mappingOf_run h ⟨db, id⟩
    cases category
    case role | unknown => exact ⟨i, rfl, h⟩
    -- users and groups listed in a database are identified through their server mapping
    all_goals
      dsimp only [resolve, identityIn]
      rw [Action.run_bind, hrun]
      simp only [CachedMapping.toOption_ofOption]
      cases st.mappings.find? ⟨db, id⟩ <;> exact ⟨i', rfl, h'⟩

/-! ## A member page, read without the cache -/

/-- Adds a member of identity `id` to a harvest, as `harvest` does. -/
def Harvest.add (policy : VisitPolicy) (token : TraversalToken) (expanding : RoleKey)
    (entitlement : Entitlement) (acc : Harvest) : Identity → Harvest
  | .principal r => { acc with grants := acc.grants ++ [⟨entitlement, r⟩] }
  | .role k =>
    { grants := acc.grants ++ [⟨entitlement, k.resourceId⟩]
      found := if shouldQueue policy token expanding acc.found k then acc.found ++ [k]
        else acc.found }
  | .noServerPrincipal | .unknown => acc

/-- The harvest of member rows of `expanding`, each resolved from the store's mappings. -/
def gather (st : Store) (policy : VisitPolicy) (token : TraversalToken) (expanding : RoleKey)
    (entitlement : Entitlement) (rows : List MemberRow) (acc : Harvest) : Harvest :=
  rows.foldl (fun acc m => acc.add policy token expanding entitlement (memberIdentity st expanding m))
    acc

/-- Whether a role found among the members of `expanding` may be queued, whatever else the
page has found. -/
def admits (policy : VisitPolicy) (token : TraversalToken) (expanding k : RoleKey) : Bool :=
  k != expanding && !token.isVisited k &&
    match policy with
    | .onCompletion => true
    | .onDiscovery => !token.isQueued k

/-- A role is queued when the token admits it and the page has not found it yet. -/
theorem shouldQueue_eq (policy : VisitPolicy) (token : TraversalToken) (expanding : RoleKey)
    (found : List RoleKey) (k : RoleKey) :
    shouldQueue policy token expanding found k =
      (admits policy token expanding k && !found.contains k) := by
  cases policy <;> simp [shouldQueue, admits, Bool.and_comm, Bool.and_left_comm]

/-- What admitting a role asks: it is not the role expanded, not visited, and under
`onDiscovery` not pending. -/
theorem admits_eq_true {policy : VisitPolicy} {token : TraversalToken} {expanding k : RoleKey} :
    admits policy token expanding k = true ↔
      k ≠ expanding ∧ k ∉ token.visited ∧
        (policy = .onDiscovery → k ∉ token.pendingRoles) := by
  cases policy <;> simp [admits, and_assoc]

section Gather

variable (st : Store) (policy : VisitPolicy) (token : TraversalToken) (expanding : RoleKey)
  (entitlement : Entitlement)

/-- A member adds the grant of the resource its identity names, if any. -/
theorem Harvest.add_grants (acc : Harvest) (id : Identity) :
    (acc.add policy token expanding entitlement id).grants =
      acc.grants ++ (id.resource?.map (Grant.mk entitlement)).toList := by
  cases id <;> simp [Harvest.add, Identity.resource?]

/-- A member queues the role it names when the token admits it. -/
theorem Harvest.mem_add_found (acc : Harvest) (id : Identity) (k : RoleKey) :
    k ∈ (acc.add policy token expanding entitlement id).found ↔
      k ∈ acc.found ∨ (id = .role k ∧ admits policy token expanding k = true) := by
  cases id with
  | role k' =>
    simp only [Harvest.add, shouldQueue_eq, Identity.role.injEq]
    by_cases hq : (admits policy token expanding k' && !acc.found.contains k') = true
    · rw [if_pos hq]
      simp only [Bool.and_eq_true, Bool.not_eq_true', List.contains_eq_mem, decide_eq_false_iff_not] at hq
      simp only [List.mem_append, List.mem_singleton]
      constructor
      · rintro (h | rfl)
        · exact .inl h
        · exact .inr ⟨rfl, hq.1⟩
      · rintro (h | ⟨rfl, _⟩)
        · exact .inl h
        · exact .inr rfl
    · rw [if_neg hq]
      simp only [Bool.and_eq_true, Bool.not_eq_true', List.contains_eq_mem, decide_eq_false_iff_not,
        not_and] at hq
      constructor
      · exact .inl
      · rintro (h | ⟨rfl, ha⟩)
        · exact h
        · exact Classical.not_not.mp (hq ha)
  | _ => simp [Harvest.add]

/-- A member never queues a role twice. -/
theorem Harvest.add_found_nodup (acc : Harvest) (id : Identity) (h : acc.found.Nodup) :
    (acc.add policy token expanding entitlement id).found.Nodup := by
  cases id with
  | role k =>
    simp only [Harvest.add, shouldQueue_eq]
    split
    · next hq =>
      simp only [Bool.and_eq_true, Bool.not_eq_true', List.contains_eq_mem, decide_eq_false_iff_not] at hq
      refine List.nodup_append.mpr ⟨h, by simp, ?_⟩
      intro a ha b hb
      rw [List.mem_singleton] at hb
      subst hb
      exact fun hab => hq.2 (hab ▸ ha)
    · exact h
  | _ => exact h

/-- The grants of rows: one for each member whose identity names a resource, in row order. -/
theorem gather_grants (rows : List MemberRow) (acc : Harvest) :
    (gather st policy token expanding entitlement rows acc).grants =
      acc.grants ++ rows.filterMap fun m =>
        (memberIdentity st expanding m).resource?.map (Grant.mk entitlement) := by
  induction rows generalizing acc with
  | nil => simp [gather]
  | cons m rest ih =>
    show (gather st policy token expanding entitlement rest _).grants = _
    rw [ih, Harvest.add_grants, List.filterMap_cons]
    cases (memberIdentity st expanding m).resource?.map (Grant.mk entitlement) <;> simp

/-- The roles rows queue: those the token admits among the roles the rows name. -/
theorem mem_gather_found (rows : List MemberRow) (acc : Harvest) (k : RoleKey) :
    k ∈ (gather st policy token expanding entitlement rows acc).found ↔
      k ∈ acc.found ∨ (admits policy token expanding k = true ∧
        ∃ m ∈ rows, memberIdentity st expanding m = .role k) := by
  induction rows generalizing acc with
  | nil => simp [gather]
  | cons m rest ih =>
    show k ∈ (gather st policy token expanding entitlement rest _).found ↔ _
    rw [ih, Harvest.mem_add_found]
    simp only [List.mem_cons, exists_eq_or_imp]
    constructor
    · rintro ((h | ⟨hm, ha⟩) | ⟨ha, hr⟩)
      · exact .inl h
      · exact .inr ⟨ha, .inl hm⟩
      · exact .inr ⟨ha, .inr hr⟩
    · rintro (h | ⟨ha, hm | hr⟩)
      · exact .inl (.inl h)
      · exact .inl (.inr ⟨hm, ha⟩)
      · exact .inr ⟨ha, hr⟩

/-- A page queues each role once. -/
theorem gather_found_nodup (rows : List MemberRow) (acc : Harvest) (h : acc.found.Nodup) :
    (gather st policy token expanding entitlement rows acc).found.Nodup := by
  induction rows generalizing acc with
  | nil => exact h
  | cons m rest ih => exact ih _ (Harvest.add_found_nodup _ _ _ _ _ _ h)

end Gather

/-- Harvesting through an agreeing cache gathers what the mappings give. -/
theorem harvest_run {i : Inventory} {st : Store} {n : Nat} (h : i.Matches st n)
    (policy : VisitPolicy) (token : TraversalToken) (expanding : RoleKey)
    (entitlement : Entitlement) (rows : List MemberRow) (acc : Harvest) :
    ∃ i', (harvest policy token expanding entitlement rows acc).run i =
      (.ok (gather st policy token expanding entitlement rows acc), i') ∧ i'.Matches st n := by
  induction rows generalizing i acc with
  | nil => exact ⟨i, rfl, h⟩
  | cons m rest ih =>
    obtain ⟨i1, hres, h1⟩ := resolve_run h m.id (PrincipalCategory.ofTag m.typeTag expanding.scope)
      expanding.databaseName?
    obtain ⟨i2, hrest, h2⟩ :=
      ih h1 (acc.add policy token expanding entitlement (memberIdentity st expanding m))
    refine ⟨i2, ?_, h2⟩
    rw [harvest, Action.run_bind, hres]
    exact hrest

/-! ## Pages of a listing -/

/-- Every page holds at least one row. -/
theorem pageLimit_pos (size : Nat) : 0 < pageLimit size := by
  unfold pageLimit
  split
  · decide
  · have : size ≠ 0 := by simpa using ‹¬(size == 0) = true›
    simp only [maxPageSize]
    omega

/-- The rows fetched with one to spare, cut to a page: the page's rows, and the offset after
them when rows are left. -/
theorem finishPage_drop {α : Type} (rows : List α) (offset limit : Nat) :
    finishPage offset limit ((rows.drop offset).take (limit + 1)) =
      ((rows.drop offset).take limit,
        if offset + limit < rows.length then some (toString (offset + limit)) else none) := by
  unfold finishPage
  have hlen : ((rows.drop offset).take (limit + 1)).length = min (limit + 1) (rows.length - offset) := by
    simp
  by_cases h : offset + limit < rows.length
  · rw [if_pos (by omega), if_pos h, List.take_take, Nat.min_eq_left (by omega)]
  · -- no row is left after the page, so the spare row was not there
    rw [if_neg (by omega), if_neg h, List.take_of_length_le (by simp; omega),
      List.take_of_length_le (by simp; omega)]

/-- The offset of a cursor that is none or the decimal text of a number below `2 ^ 64`. -/
theorem pageOffset_map_toString (o? : Option Nat) (ho : ∀ o ∈ o?, o < 2 ^ 64) :
    pageOffset (o?.map toString) = .ok (o?.getD 0) := by
  cases o? with
  | none => rfl
  | some o =>
    -- the text of a number is its digits, so it is neither blank nor signed
    obtain ⟨c, cs, hcs, _⟩ := Text.toDigits_head o
    have hlist : (toString o).toList = c :: cs := by
      rw [show toString o = Nat.repr o from rfl, Nat.toList_repr, hcs]
    have hp := Text.parseU64_toString (ho o rfl)
    rw [hlist] at hp
    unfold pageOffset
    simp only [Option.map_some]
    rw [Text.trimList_toString, hlist]
    simp only [hp]
    rfl

/-- A page of a listing read at offset `o` (no offset for the first page): the rows from the
offset, as many as the page limit allows, and the cursor of the next page when rows are left
after them. -/
theorem listing_at {α : Type} (rows : List α) (o? : Option Nat) (ho : ∀ o ∈ o?, o < 2 ^ 64)
    (size : Nat) :
    Store.listing rows (o?.map toString) size =
      .ok ⟨(rows.drop (o?.getD 0)).take (pageLimit size),
        if o?.getD 0 + pageLimit size < rows.length then
          some (toString (o?.getD 0 + pageLimit size)) else none⟩ := by
  unfold Store.listing pageOf pageBounds
  rw [pageOffset_map_toString o? ho]
  simp only [Bind.bind, Except.bind, Pure.pure, Except.pure, finishPage_drop]

/-! ## A traversal step, read without the cache -/

/-- A traversal step of `walkStep` over the catalog of `st`, with member identities read
from its mappings. -/
def advance (st : Store) (policy : VisitPolicy) (maxRoles : Nat) (root : RoleKey)
    (token : TraversalToken) (pageSize : Nat) : Except Error (List Grant × TraversalToken) :=
  let token := startFrom policy root token
  match token.pending with
  | [] => .ok ([], .fresh)
  | entry :: below =>
    let rest : TraversalToken := { token with pending := below }
    match Store.listing (st.members.listAt entry.role) entry.cursor pageSize with
    | .error e => .error e
    | .ok page =>
      let got := gather st policy rest entry.role (.member root.resourceId) page.items ⟨[], []⟩
      let next := afterPage policy entry rest got.found page.next
      if maxRoles < next.trackedRoles then .error (.roleLimit root.display maxRoles)
      else .ok (got.grants, next)

/-- A step always has an entry to expand: a finished token starts again at the root. -/
theorem startFrom_pending_ne_nil (policy : VisitPolicy) (root : RoleKey) (token : TraversalToken) :
    (startFrom policy root token).pending ≠ [] := by
  unfold startFrom
  by_cases hd : token.isDone
  · rw [if_pos hd]
    cases policy <;> exact List.cons_ne_nil _ _
  · rw [if_neg hd]
    simpa [TraversalToken.isDone] using hd

/-- A traversal step over an inventory serving `st` gives what `advance` gives, and the
store serves exactly one member page. -/
theorem walkStep_run {i : Inventory} {st : Store} {n : Nat} (h : i.Matches st n)
    (policy : VisitPolicy) (maxRoles : Nat) (root : RoleKey) (token : TraversalToken)
    (pageSize : Nat) :
    ∃ i', (walkStep policy maxRoles root token pageSize).run i =
      (advance st policy maxRoles root token pageSize, i') ∧ i'.Matches st (n + 1) := by
  unfold walkStep advance
  rcases hp : (startFrom policy root token).pending with _ | ⟨entry, below⟩
  · exact absurd hp (startFrom_pending_ne_nil policy root token)
  simp only [hp]
  rw [Action.run_bind, Action.run_onStore]
  simp only [Store.listRoleMembers]
  have hlist : Store.listing (i.store.members.listAt entry.role) entry.cursor pageSize =
      Store.listing (st.members.listAt entry.role) entry.cursor pageSize := by
    rw [h.members]
  rw [hlist, Action.run_bind, Action.run_ofExcept]
  have h1 : Inventory.Matches
      { i with store := { i.store with memberFetches := i.store.memberFetches + 1 } } st (n + 1) :=
    ⟨h.members, h.mappings, by simp [h.fetches], h.cache⟩
  cases Store.listing (st.members.listAt entry.role) entry.cursor pageSize with
  | error e => exact ⟨_, rfl, h1⟩
  | ok page =>
    simp only
    obtain ⟨i2, hrun, h2⟩ := harvest_run h1 policy ⟨below, (startFrom policy root token).visited⟩
      entry.role (.member root.resourceId) page.items ⟨[], []⟩
    rw [Action.run_bind, hrun]
    exact ⟨i2, Action.run_check _ _ _ _, h2⟩

/-! ## A traversal call -/

/-- A traversal call whose root is a role and whose token reads gives the page of `advance`
over the catalog it is served, and the store serves exactly one member page. -/
theorem roleGrants_run {i : Inventory} {st : Store} {n : Nat} (h : i.Matches st n) (c : Connector)
    {root : ResourceId} {key : RoleKey} (hkey : RoleKey.ofResource root = .ok key)
    {token : String} {state : TraversalToken} (hstate : TraversalToken.decode token = .ok state)
    (hint : Nat) :
    ∃ i', (c.roleGrants root token hint).run i =
      ((advance st c.policy c.maxRoles key state (c.pageSize hint)).map
        (fun r => ⟨r.1, r.2.encode⟩), i') ∧ i'.Matches st (n + 1) := by
  unfold Connector.roleGrants
  rw [Action.run_bind, Action.run_ofExcept, hkey]
  simp only
  rw [Action.run_bind, Action.run_ofExcept, hstate]
  simp only
  rw [Action.run_bind]
  obtain ⟨i', hrun, h'⟩ := walkStep_run h c.policy c.maxRoles key state (c.pageSize hint)
  rw [hrun]
  refine ⟨i', ?_, h'⟩
  cases advance st c.policy c.maxRoles key state (c.pageSize hint) <;> rfl

end AccessReview
