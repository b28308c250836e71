import Mathlib
import AccessReview.Proofs.Provisioning
import AccessReview.Proofs.CacheServe

/-! # Actions blind to the mapping cache

An action is blind to the cache (`Action.Blind`) when, from a store and with any cache that
keeps only what the store answers, it gives the same outcome and leaves the same store, but
for the lookups the store counts, and the cache sees the same requests: what the cache holds
changes only how many of those requests miss. It forgets a database only as it journals a
`CREATE USER`.

Reading the store, computing and failing are blind (`Action.ReadsStore.blind`); so is reading
a mapping, and binds of blind actions are blind. Every call of the connector is built from
these.
-/

namespace AccessReview

/-- Whether a statement creates a database user. -/
def Statement.createsUser : Statement → Bool
  | .createDatabaseUser _ _ _ => true
  | _ => false

/-- The inventory of a store with its lookup count set to `n`, and a cache. -/
def Store.withCache (st : Store) (n : Nat) (c : MappingCache) : Inventory :=
  ⟨{ st with mappingLookups := n }, c⟩

/-- The cache serving requests for an inventory: the lookups count the misses. -/
theorem Store.withCache_serveAll (st : Store) (n : Nat) (c : MappingCache)
    (rs : List CacheRequest) :
    (st.withCache n c).serveAll rs =
      st.withCache (n + (c.serveAll st.mappings rs).2) (c.serveAll st.mappings rs).1 := rfl

namespace Action

variable {α β : Type}

/-- An action blind to the mapping cache: from a store, its outcome, the store it leaves but
for its lookup count, and the requests it makes of the cache are the same whatever the cache
(keeping only what the store answers) and whatever the lookups counted so far; the mappings
stay as they are, and each database forgotten goes with a `CREATE USER` journaled. -/
def Blind (a : Action α) : Prop :=
  ∀ st : Store, ∃ (r : Except Error α) (st' : Store) (rs : List CacheRequest),
    st'.mappings = st.mappings ∧
    st.journal.countP Statement.createsUser + rs.countP CacheRequest.isForget =
      st'.journal.countP Statement.createsUser ∧
    ∀ (c : MappingCache) (n : Nat), c.Agrees st.mappings →
      a.run (st.withCache n c) = (r, (st'.withCache n c).serveAll rs)

variable {a : Action α}

/-- An action that touches only the store, the same way whatever the lookups counted, and
creates no database user. -/
theorem Blind.of_run (f : Store → Except Error α × Store)
    (hrun : ∀ st n c, a.run (st.withCache n c) = ((f st).1, (f st).2.withCache n c))
    (hmap : ∀ st, (f st).2.mappings = st.mappings)
    (hjournal : ∀ st, (f st).2.journal.countP Statement.createsUser =
      st.journal.countP Statement.createsUser) : Blind a := by
  intro st
  refine ⟨(f st).1, (f st).2, [], hmap st, by simp [hjournal], fun c n _ => ?_⟩
  rw [hrun]
  simp [Inventory.serveAll, MappingCache.serveAll, Store.withCache]

theorem Blind.pure (x : α) : Blind (Pure.pure x : Action α) :=
  .of_run (fun st => (.ok x, st)) (fun _ _ _ => rfl) (fun _ => rfl) (fun _ => rfl)

theorem Blind.ofExcept (r : Except Error α) : Blind (Action.ofExcept r) :=
  .of_run (fun st => (r, st)) (fun _ _ _ => rfl) (fun _ => rfl) (fun _ => rfl)

theorem Blind.fail (e : Error) : Blind (Action.fail e : Action α) :=
  .of_run (fun st => (.error e, st)) (fun _ _ _ => rfl) (fun _ => rfl) (fun _ => rfl)

/-- Blind actions in sequence are blind: the cache sees the requests of the first, then those
of the second. -/
theorem Blind.bind {x : Action α} {f : α → Action β} (hx : Blind x) (hf : ∀ v, Blind (f v)) :
    Blind (x >>= f) := by
  intro st
  obtain ⟨r₁, st₁, rs₁, hmap₁, hjournal₁, hrun₁⟩ := hx st
  cases r₁ with
  | error e =>
    refine ⟨.error e, st₁, rs₁, hmap₁, hjournal₁, fun c n hc => ?_⟩
    rw [run_bind, hrun₁ c n hc]
  | ok v =>
    obtain ⟨r₂, st₂, rs₂, hmap₂, hjournal₂, hrun₂⟩ := hf v st₁
    refine ⟨r₂, st₂, rs₁ ++ rs₂, hmap₂.trans hmap₁, ?_, fun c n hc => ?_⟩
    · rw [List.countP_append]
      omega
    -- the second runs on the store the first left, its lookups and the cache it left
    rw [run_bind, hrun₁ c n hc]
    dsimp only
    rw [Store.withCache_serveAll, hrun₂ _ _ (hmap₁ ▸ MappingCache.serveAll_agrees hc rs₁),
      Store.withCache_serveAll, Store.withCache_serveAll, MappingCache.serveAll_append, hmap₂,
      hmap₁, Nat.add_assoc]

/-- Reading the store and going on with what does not depend on the lookups counted. -/
theorem Blind.store_bind {f : Store → Action α} (hf : ∀ s, Blind (f s))
    (hlk : ∀ s n, f { s with mappingLookups := n } = f s) : Blind (Action.store >>= f) := by
  intro st
  obtain ⟨r, st', rs, hmap, hjournal, hrun⟩ := hf st st
  refine ⟨r, st', rs, hmap, hjournal, fun c n hc => ?_⟩
  rw [run_bind, run_store]
  exact (congrArg (fun g => g.run (st.withCache n c)) (hlk st n)).trans (hrun c n hc)

/-- A blind action chosen by a condition. -/
theorem Blind.ite {p : Prop} [Decidable p] {x y : Action α} (hx : Blind x) (hy : Blind y) :
    Blind (if p then x else y) := by
  split
  · exact hx
  · exact hy

/-! ## Reading mappings -/

theorem countP_isForget_map_read (ps : List DatabasePrincipal) :
    (ps.map CacheRequest.read).countP CacheRequest.isForget = 0 := by
  simp [List.countP_eq_zero, CacheRequest.isForget]

/-- An action that reads mappings as a function of the mapping table, leaving the rest of the
store alone, with an outcome the table gives. -/
theorem Blind.of_afterReads (f : Table DatabasePrincipal ServerPrincipal → α)
    (reads : Table DatabasePrincipal ServerPrincipal → List DatabasePrincipal)
    (hrun : ∀ i : Inventory, i.cache.Agrees i.store.mappings →
      a.run i = (.ok (f i.store.mappings), i.afterReads (reads i.store.mappings))) : Blind a := by
  intro st
  refine ⟨.ok (f st.mappings), st, (reads st.mappings).map .read, rfl,
    by rw [countP_isForget_map_read, Nat.add_zero], fun c n hc => ?_⟩
  rw [hrun (st.withCache n c) hc, Inventory.afterReads_eq_serveAll]
  rfl

theorem Blind.mappingOf (p : DatabasePrincipal) : Blind (mappingOf p) :=
  .of_afterReads (fun tbl => CachedMapping.ofOption (tbl.find? p)) (fun _ => [p])
    fun _ hc => mappingOf_run_afterRead hc p

theorem Blind.resolve (id : PrincipalId) (category : PrincipalCategory)
    (db? : Option DatabaseName) :
    Blind (resolve id category db?) :=
  .of_afterReads (fun tbl => identityIn tbl id category db?)
    (fun _ => resolveReads id category db?) fun _ hc => resolve_run_afterReads hc id category db?

theorem Blind.synthesize (scope : PermissionScope) (resource : ResourceId) (v : Vocabulary)
    (rows : List PermissionRow) : Blind (synthesize scope resource v rows) :=
  .of_afterReads (fun tbl => rows.flatMap (rowGrantsIn tbl scope resource v))
    (fun _ => rows.flatMap (rowReads scope v))
    fun _ hc => synthesize_run_afterReads hc scope resource v rows

/-! ## Connector calls that read -/

theorem Blind.harvest (policy : VisitPolicy) (token : TraversalToken) (expanding : RoleKey)
    (entitlement : Entitlement) (rows : List MemberRow) (acc : Harvest) :
    Blind (harvest policy token expanding entitlement rows acc) := by
  induction rows generalizing acc with
  | nil => exact .pure acc
  | cons m rest ih =>
    rw [AccessReview.harvest]
    exact (Blind.resolve _ _ _).bind fun _ => ih _

/-- Listing a role's members counts one page served, whatever the lookups counted. -/
theorem Blind.listRoleMembers (role : RoleKey) (cursor : Option String) (size : Nat) :
    Blind (Action.onStore (·.listRoleMembers role cursor size)) :=
  .of_run (fun st => (.ok (st.listRoleMembers role cursor size).1,
      (st.listRoleMembers role cursor size).2)) (fun _ _ _ => rfl) (fun _ => rfl) (fun _ => rfl)

theorem Blind.walkStep (policy : VisitPolicy) (maxRoles : Nat) (root : RoleKey)
    (token : TraversalToken) (pageSize : Nat) :
    Blind (walkStep policy maxRoles root token pageSize) := by
  unfold AccessReview.walkStep
  dsimp only
  split
  · exact .pure _
  · refine (Blind.listRoleMembers _ _ _).bind fun listed => (Blind.ofExcept listed).bind
      fun page => (Blind.harvest _ _ _ _ _ _).bind fun got => ?_
    exact .ite ((Blind.fail _).bind fun _ => .pure _) (.pure _)

end Action

theorem Connector.blind_roleGrants (c : Connector) (root : ResourceId) (token : String)
    (hint : Nat) :
    Action.Blind (c.roleGrants root token hint) :=
  (Action.Blind.ofExcept _).bind fun _ => (Action.Blind.ofExcept _).bind fun _ =>
    (Action.Blind.walkStep _ _ _ _ _).bind fun _ => .pure _

theorem Connector.blind_decodePermissions (c : Connector) (scope : PermissionScope)
    (resource : ResourceId) (rows : List PermissionRow) :
    Action.Blind (c.decodePermissions scope resource rows) :=
  Action.Blind.synthesize _ _ _ _

theorem Connector.blind_permissionGrants (c : Connector) (scope : PermissionScope)
    (resource : ResourceId) (cursor : String) (hint : Nat) :
    Action.Blind (c.permissionGrants scope resource cursor hint) :=
  Action.Blind.store_bind (fun _ => (Action.Blind.ofExcept _).bind fun _ =>
    (c.blind_decodePermissions _ _ _).bind fun _ => .pure _) fun _ _ => rfl

/-! ## Provisioning -/

/-- Executing a statement does not look at the lookups counted. -/
theorem Store.execute_withLookups (st : Store) (n : Nat) (stmt : Statement) :
    { st with mappingLookups := n }.execute stmt =
      (st.execute stmt).map fun s => { s with mappingLookups := n } := by
  cases stmt with
  | createDatabaseUser db user login =>
    unfold Store.execute
    dsimp only
    rcases h : st.loginNamed? login with _ | id
    · have h' : ({ st with mappingLookups := n } : Store).loginNamed? login = none := h
      rw [h']
      rfl
    · have h' : ({ st with mappingLookups := n } : Store).loginNamed? login = some id := h
      rw [h']
      rfl
  | _ => rfl

namespace Action

/-- An action that only reads the store is blind to the cache. -/
theorem ReadsStore.blind (h : ReadsStore a) : Blind a :=
  .of_run (fun st => ((a.run (st.withCache 0 (.empty 0))).1, st))
    (fun st n c => Prod.ext ((h (st.withCache 0 (.empty 0))).2 c n) (h (st.withCache n c)).1)
    (fun _ => rfl) (fun _ => rfl)

/-- A statement that creates no user is rendered, then journaled. -/
theorem Blind.execute {stmt : Statement} (hc : stmt.createsUser = false) :
    Blind (execute stmt) := by
  have hnot : ∀ db user login, stmt ≠ .createDatabaseUser db user login := by
    rintro db user login rfl
    simp [Statement.createsUser] at hc
  -- rendering reads nothing, and the store then only journals the statement
  refine (Blind.ofExcept _).bind fun _ =>
    .of_run (fun st => (.ok (), { st with journal := st.journal ++ [stmt] })) (fun st n c => ?_)
      (fun _ => rfl) (fun _ => by simp [hc])
  rw [Action.run_change, Store.execute_of_not_create hnot]
  rfl

/-- Making sure of a database user: the user there is kept; a user created is journaled and the
cache forgets the database's mappings. -/
theorem Blind.ensureDatabaseUser (db : DatabaseName) (login : Login) :
    Blind (ensureDatabaseUser db login) := by
  intro st
  have hrun := fun n c => ensureDatabaseUser_run db login (st.withCache n c)
  rcases hu : st.databaseUser? db login.id with _ | user
  · rcases hr : (Statement.createDatabaseUser db login.name login.name).render with e | t
    · -- the user's name cannot be quoted: nothing runs
      refine ⟨.error e, st, [], rfl, by simp, fun c n _ => ?_⟩
      rw [hrun n c, show (st.withCache n c).store.databaseUser? db login.id = none from hu,
        execute_run, hr]
      rfl
    · rcases hs : st.execute (.createDatabaseUser db login.name login.name) with e | s
      · -- the store refuses the user: nothing changes
        refine ⟨.error e, st, [], rfl, by simp, fun c n _ => ?_⟩
        rw [hrun n c, show (st.withCache n c).store.databaseUser? db login.id = none from hu,
          execute_run, hr]
        dsimp only
        rw [show (st.withCache n c).store = { st with mappingLookups := n } from rfl,
          Store.execute_withLookups, hs]
        rfl
      · -- the user is created, and the database's mappings forgotten
        obtain ⟨id, -, rfl⟩ := Store.execute_create_eq_ok hs
        refine ⟨.ok login.name, { st.addDatabaseUser db id login.name with
          journal := st.journal ++ [.createDatabaseUser db login.name login.name] }, [.forget db],
          rfl, by simp [Statement.createsUser, CacheRequest.isForget], fun c n _ => ?_⟩
        rw [hrun n c, show (st.withCache n c).store.databaseUser? db login.id = none from hu,
          execute_run, hr]
        dsimp only
        rw [show (st.withCache n c).store = { st with mappingLookups := n } from rfl,
          Store.execute_withLookups, hs]
        rfl
  · refine ⟨.ok user, st, [], rfl, by simp, fun c n _ => ?_⟩
    rw [hrun n c, show (st.withCache n c).store.databaseUser? db login.id = some user from hu]
    rfl

end Action

theorem Connector.blind_grant (c : Connector) (e : Entitlement) (principal : ResourceId) :
    Action.Blind (c.grant e principal) := by
  unfold Connector.grant
  dsimp only
  split
  · exact (Action.ReadsStore.userLogin _).blind.bind fun _ =>
      (Action.ReadsStore.databaseOf _).blind.bind fun _ =>
      (Action.Blind.ofExcept _).bind fun ⟨_, _⟩ =>
      (Action.Blind.ensureDatabaseUser _ _).bind fun _ =>
      (Action.Blind.execute (by rfl)).bind fun _ => .pure _
  · exact (Action.ReadsStore.requireMembership _).blind.bind fun _ =>
      (Action.ReadsStore.memberLogin _).blind.bind fun _ =>
      (Action.ReadsStore.serverRoleOf _).blind.bind fun _ =>
      (Action.Blind.execute (by rfl)).bind fun _ => .pure _
  · exact (Action.ReadsStore.requireMembership _).blind.bind fun _ =>
      (Action.ReadsStore.memberLogin _).blind.bind fun _ =>
      (Action.ReadsStore.databaseRoleOf _).blind.bind fun ⟨_, _⟩ =>
      (Action.Blind.ensureDatabaseUser _ _).bind fun _ =>
      (Action.Blind.execute (by rfl)).bind fun _ => .pure _
  · exact (Action.Blind.fail _).bind fun _ => .pure _

theorem Connector.blind_revoke (c : Connector) (g : Grant) : Action.Blind (c.revoke g) := by
  unfold Connector.revoke
  dsimp only
  split
  · refine (Action.ReadsStore.userLogin _).blind.bind fun _ =>
      (Action.ReadsStore.databaseOf _).blind.bind fun _ =>
      (Action.Blind.ofExcept _).bind fun ⟨_, _⟩ =>
      (Action.ReadsStore.existingDatabaseUser _ _).blind.bind fun user => ?_
    cases user with
    | none => exact .pure _
    | some _ => exact .execute (by rfl)
  · exact (Action.ReadsStore.requireMembership _).blind.bind fun _ =>
      (Action.ReadsStore.memberLogin _).blind.bind fun _ =>
      (Action.ReadsStore.serverRoleOf _).blind.bind fun _ => .execute (by rfl)
  · refine (Action.ReadsStore.requireMembership _).blind.bind fun _ =>
      (Action.ReadsStore.memberLogin _).blind.bind fun _ =>
      (Action.ReadsStore.databaseRoleOf _).blind.bind fun ⟨_, _⟩ =>
      (Action.ReadsStore.existingDatabaseUser _ _).blind.bind fun user => ?_
    cases user with
    | none => exact .pure _
    | some _ => exact .execute (by rfl)
  · exact .fail _

end AccessReview
