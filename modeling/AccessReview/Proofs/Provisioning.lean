import Mathlib
import AccessReview.Proofs.PageStep
import AccessReview.Provision

/-! # What a failed grant or revoke leaves behind

Provisioning looks names up in the store, renders one or two statements and has the store
execute them in order, with no transaction around them. The lookups only read the store
(`Action.ReadsStore`, whatever the cache and the lookups counted, so `Action.Inspects`), and a
statement that cannot be rendered never reaches the store. So a revoke that fails leaves the
inventory as it was (`Connector.revoke_failsLeaving`).

A grant of a database permission or of a database role membership first makes sure the
login has a database user, running `CREATE USER` when it has none, and only then renders the
statement that grants. A grant that fails therefore leaves the inventory as it was, or with
exactly that `CREATE USER` executed and the database's cached mappings forgotten, the failure
being the refusal to render the statement that was to follow (`Connector.grant_failsLeaving`).
The second case does happen: a database role whose name cannot be quoted is refused only
after the login's user was created (`Connector.grant_unquotable_role_creates_user`).
-/

namespace AccessReview

namespace Action

variable {α β : Type}

/-- A store step that may fail: a failure leaves the inventory as it was. -/
theorem run_change (f : Store → Except Error Store) (i : Inventory) :
    (Action.change f).run i = match f i.store with
      | .ok s => (.ok (), { i with store := s })
      | .error e => (.error e, i) := by
  unfold Action.change
  rw [run_bind, run_store]
  dsimp only
  rw [run_bind, run_ofExcept]
  cases f i.store <;> rfl

/-- An action followed by a value computed from its result fails exactly when the action
does. -/
theorem bind_pure_failure {x : Action α} {g : α → β} {i i' : Inventory} {err : Error}
    (h : (x >>= fun v => pure (g v)).run i = (.error err, i')) : x.run i = (.error err, i') := by
  rw [run_bind] at h
  rcases hx : x.run i with ⟨r, j⟩
  rw [hx] at h
  cases r with
  | ok v => cases h
  | error e =>
    cases h
    rfl

/-! ## Actions that only read the store -/

/-- An action that only reads the store: it leaves the inventory as it is, and its outcome
does not depend on the cache. -/
def Inspects (a : Action α) : Prop :=
  ∀ i, (a.run i).2 = i ∧ ∀ c, (a.run { i with cache := c }).1 = (a.run i).1

/-- An action that only reads the store: it changes nothing, and its outcome depends neither on
the cache nor on the lookups the store counted. -/
def ReadsStore (a : Action α) : Prop :=
  ∀ i : Inventory, (a.run i).2 = i ∧
    ∀ (c : MappingCache) (n : Nat),
      (a.run ⟨{ i.store with mappingLookups := n }, c⟩).1 = (a.run i).1

theorem ReadsStore.inspects {a : Action α} (h : ReadsStore a) : Inspects a :=
  fun i => ⟨(h i).1, fun c => (h i).2 c i.store.mappingLookups⟩

theorem ReadsStore.pure (x : α) : ReadsStore (Pure.pure x : Action α) :=
  fun _ => ⟨rfl, fun _ _ => rfl⟩

theorem ReadsStore.ofExcept (r : Except Error α) : ReadsStore (Action.ofExcept r) :=
  fun _ => ⟨rfl, fun _ _ => rfl⟩

theorem ReadsStore.fail (e : Error) : ReadsStore (Action.fail e : Action α) :=
  fun _ => ⟨rfl, fun _ _ => rfl⟩

/-- Reading the store and going on with what does not depend on the lookups counted. -/
theorem ReadsStore.store_bind {f : Store → Action α} (hf : ∀ s, ReadsStore (f s))
    (hlk : ∀ s n, f { s with mappingLookups := n } = f s) :
    ReadsStore (Action.store >>= f) := by
  intro i
  rw [run_bind, run_store]
  refine ⟨(hf i.store i).1, fun c n => ?_⟩
  rw [run_bind, run_store]
  dsimp only
  rw [hlk]
  exact (hf i.store i).2 c n

/-- Reading after reading only reads. -/
theorem ReadsStore.bind {x : Action α} {f : α → Action β} (hx : ReadsStore x)
    (hf : ∀ v, ReadsStore (f v)) : ReadsStore (x >>= f) := by
  intro i
  obtain ⟨hstay, hsame⟩ := hx i
  rw [run_bind]
  rcases hr : x.run i with ⟨r, j⟩
  rw [hr] at hstay hsame
  dsimp only at hstay hsame
  subst hstay
  refine ⟨?_, fun c n => ?_⟩
  · cases r with
    | ok v => exact (hf v j).1
    | error e => rfl
  -- the read runs the same on the other cache and count, and leaves them as they were
  rw [run_bind]
  have hstay' := (hx ⟨{ j.store with mappingLookups := n }, c⟩).1
  have hsame' := hsame c n
  rcases hr' : x.run ⟨{ j.store with mappingLookups := n }, c⟩ with ⟨r', j'⟩
  rw [hr'] at hsame' hstay'
  dsimp only at hsame' hstay'
  subst hstay'
  rw [hsame']
  cases r with
  | ok v => exact (hf v j).2 c n
  | error e => rfl

/-- An action that only reads, run. -/
theorem Inspects.run_eq {a : Action α} (h : Inspects a) (i : Inventory) :
    a.run i = ((a.run i).1, i) :=
  Prod.ext rfl (h i).1

/-- A failure after a read is the read's failure, which changed nothing, or a failure of what
followed it from the same inventory. -/
theorem Inspects.bind_failure {x : Action α} {f : α → Action β} (hx : Inspects x)
    {i i' : Inventory} {err : Error} (h : (x >>= f).run i = (.error err, i')) :
    i' = i ∨ ∃ v, (f v).run i = (.error err, i') := by
  rw [run_bind, hx.run_eq i] at h
  rcases hr : (x.run i).1 with v | v
  · rw [hr] at h
    cases h
    exact .inl rfl
  · rw [hr] at h
    exact .inr ⟨v, h⟩

/-- What an action that fails may leave: `P i i' err` of the inventory `i` it ran on, the
inventory `i'` it left and the error `err`. -/
def FailsLeaving (a : Action α) (P : Inventory → Inventory → Error → Prop) : Prop :=
  ∀ i i' err, a.run i = (.error err, i') → P i i' err

theorem FailsLeaving.pure (x : α) (P : Inventory → Inventory → Error → Prop) :
    FailsLeaving (Pure.pure x : Action α) P :=
  fun _ _ _ h => nomatch h

/-- A failure after a read is one of what followed it, or it changed nothing. -/
theorem Inspects.bind_failsLeaving {x : Action α} {f : α → Action β}
    {P : Inventory → Inventory → Error → Prop} (hx : Inspects x)
    (hf : ∀ v, FailsLeaving (f v) P) (hP : ∀ i err, P i i err) : FailsLeaving (x >>= f) P := by
  intro i i' err h
  rcases hx.bind_failure h with rfl | ⟨v, hv⟩
  · exact hP _ err
  · exact hf v i i' err hv

theorem ReadsStore.bind_failsLeaving {x : Action α} {f : α → Action β}
    {P : Inventory → Inventory → Error → Prop} (hx : ReadsStore x)
    (hf : ∀ v, FailsLeaving (f v) P) (hP : ∀ i err, P i i err) : FailsLeaving (x >>= f) P :=
  hx.inspects.bind_failsLeaving hf hP

theorem Inspects.failsLeaving {a : Action α} {P : Inventory → Inventory → Error → Prop}
    (ha : Inspects a) (hP : ∀ i err, P i i err) : FailsLeaving a P := by
  intro i i' err h
  have hstay : i' = i := by simpa [h] using (ha i).1
  rw [hstay]
  exact hP i err

end Action

/-! ## Statements reaching the store -/

/-- Every statement but `CREATE USER` is journaled and changes nothing else. -/
theorem Store.execute_of_not_create {stmt : Statement}
    (h : ∀ db user login, stmt ≠ .createDatabaseUser db user login) (s : Store) :
    s.execute stmt = .ok { s with journal := s.journal ++ [stmt] } := by
  cases stmt <;> first | rfl | exact absurd rfl (h _ _ _)

/-- A `CREATE USER` adds the user under the login the store finds by its name. -/
theorem Store.execute_create_eq_ok {s s' : Store} {db : DatabaseName} {user login : PrincipalName}
    (h : s.execute (.createDatabaseUser db user login) = .ok s') :
    ∃ id, s.loginNamed? login = some id ∧
      s' = { s.addDatabaseUser db id user with
        journal := s.journal ++ [.createDatabaseUser db user login] } := by
  unfold Store.execute at h
  dsimp only at h
  rcases hid : s.loginNamed? login with _ | id
  · rw [hid] at h
    cases h
  · rw [hid] at h
    cases h
    exact ⟨id, rfl, rfl⟩

/-- A statement is rendered first; a refusal there stops it before the store. -/
theorem execute_run (stmt : Statement) (i : Inventory) :
    (execute stmt).run i = match stmt.render with
      | .error e => (.error e, i)
      | .ok _ => match i.store.execute stmt with
        | .ok s => (.ok (), { i with store := s })
        | .error e => (.error e, i) := by
  unfold execute
  rw [Action.run_bind, Action.run_ofExcept]
  cases stmt.render with
  | error e => rfl
  | ok t => exact Action.run_change _ i

/-- A statement that ran was rendered and executed by the store. -/
theorem execute_ok {stmt : Statement} {i j : Inventory} (h : (execute stmt).run i = (.ok (), j)) :
    ∃ s, i.store.execute stmt = .ok s ∧ j = { i with store := s } := by
  rw [execute_run] at h
  split at h
  · cases h
  · split at h
    · rename_i s hs
      cases h
      exact ⟨s, hs, rfl⟩
    · cases h

/-- A statement that fails leaves the inventory as it was. -/
theorem execute_failure {stmt : Statement} {i i' : Inventory} {err : Error}
    (h : (execute stmt).run i = (.error err, i')) : i' = i := by
  rw [execute_run] at h
  split at h
  · cases h
    rfl
  · split at h
    · cases h
    · cases h
      rfl

/-- A statement other than `CREATE USER` fails only when it cannot be rendered. -/
theorem execute_failure_render {stmt : Statement}
    (hc : ∀ db user login, stmt ≠ .createDatabaseUser db user login) {i i' : Inventory}
    {err : Error} (h : (execute stmt).run i = (.error err, i')) : stmt.render = .error err := by
  rw [execute_run, Store.execute_of_not_create hc] at h
  split at h
  · cases h
    assumption
  · cases h

/-! ## Lookups only read -/

namespace Action

theorem ReadsStore.loginOf (principal : ResourceId) : ReadsStore (loginOf principal) := by
  unfold AccessReview.loginOf
  refine (ReadsStore.ofExcept _).bind fun id => ReadsStore.store_bind (fun s => ?_) fun _ _ => rfl
  split
  · exact .pure _
  · exact .fail _

theorem ReadsStore.userLogin (principal : ResourceId) : ReadsStore (userLogin principal) := by
  unfold AccessReview.userLogin
  split
  · exact .loginOf _
  · exact .fail _

theorem ReadsStore.memberLogin (principal : ResourceId) : ReadsStore (memberLogin principal) := by
  unfold AccessReview.memberLogin
  split
  · exact .loginOf _
  · exact .loginOf _
  · exact .fail _

theorem ReadsStore.databaseOf (resource : ResourceId) : ReadsStore (databaseOf resource) := by
  unfold AccessReview.databaseOf
  split
  · refine ReadsStore.store_bind (fun s => ?_) fun _ _ => rfl
    split
    · exact .pure _
    · exact .fail _
  · exact .fail _

theorem ReadsStore.serverRoleOf (resource : ResourceId) : ReadsStore (serverRoleOf resource) := by
  unfold AccessReview.serverRoleOf
  refine (ReadsStore.ofExcept _).bind fun id => ReadsStore.store_bind (fun s => ?_) fun _ _ => rfl
  split
  · exact .pure _
  · exact .fail _

theorem ReadsStore.databaseRoleOf (resource : ResourceId) :
    ReadsStore (databaseRoleOf resource) := by
  unfold AccessReview.databaseRoleOf
  refine (ReadsStore.ofExcept _).bind fun key => ?_
  split
  · refine ReadsStore.store_bind (fun s => ?_) fun _ _ => rfl
    split
    · exact .pure _
    · exact .fail _
  · exact .fail _

theorem ReadsStore.requireMembership (e : Entitlement) : ReadsStore (requireMembership e) := by
  unfold AccessReview.requireMembership
  split
  · exact .pure _
  · exact .fail _

theorem ReadsStore.existingDatabaseUser (db : DatabaseName) (login : Login) :
    ReadsStore (existingDatabaseUser db login) :=
  ReadsStore.store_bind (fun _ => .pure _) fun _ _ => rfl

end Action

/-! ## Creating the database user -/

/-- The inventory after a login's database user was created: the login had no user in the
database, the store added one under the login it finds by name and journaled the
`CREATE USER`, and the database's cached mappings were forgotten. -/
def Inventory.CreatedUser (i i' : Inventory) (db : DatabaseName) (login : Login) : Prop :=
  i.store.databaseUser? db login.id = none ∧ ∃ id, i.store.loginNamed? login.name = some id ∧
    i' = ⟨{ i.store.addDatabaseUser db id login.name with
      journal := i.store.journal ++ [.createDatabaseUser db login.name login.name] },
      i.cache.invalidateDatabase db⟩

/-- Making sure of a database user: the user there is kept, or one is created. -/
theorem ensureDatabaseUser_run (db : DatabaseName) (login : Login) (i : Inventory) :
    (ensureDatabaseUser db login).run i = match i.store.databaseUser? db login.id with
      | some user => (.ok user, i)
      | none => match (execute (.createDatabaseUser db login.name login.name)).run i with
        | (.ok (), j) => (.ok login.name, { j with cache := j.cache.invalidateDatabase db })
        | (.error e, j) => (.error e, j) := by
  unfold ensureDatabaseUser
  rw [Action.run_bind, Action.run_store]
  dsimp only
  rcases i.store.databaseUser? db login.id with _ | user
  · rw [Action.run_bind]
    rcases (execute (.createDatabaseUser db login.name login.name)).run i with ⟨_ | ⟨⟩, j⟩ <;> rfl
  · rfl

/-- A user made sure of: the inventory is as it was, or the user was created. -/
theorem ensureDatabaseUser_ok {db : DatabaseName} {login : Login} {i i' : Inventory}
    {user : PrincipalName} (h : (ensureDatabaseUser db login).run i = (.ok user, i')) :
    i' = i ∨ (i.CreatedUser i' db login ∧ user = login.name) := by
  rw [ensureDatabaseUser_run] at h
  rcases hu : i.store.databaseUser? db login.id with _ | found
  · rw [hu] at h
    rcases hx : (execute (.createDatabaseUser db login.name login.name)).run i with ⟨_ | ⟨⟩, j⟩
    · rw [hx] at h
      cases h
    · rw [hx] at h
      cases h
      obtain ⟨s, hs, rfl⟩ := execute_ok hx
      obtain ⟨id, hid, rfl⟩ := Store.execute_create_eq_ok hs
      exact .inr ⟨⟨hu, id, hid, rfl⟩, rfl⟩
  · rw [hu] at h
    cases h
    exact .inl rfl

/-- Making sure of a user fails only before anything changed. -/
theorem ensureDatabaseUser_failure {db : DatabaseName} {login : Login} {i i' : Inventory}
    {err : Error} (h : (ensureDatabaseUser db login).run i = (.error err, i')) : i' = i := by
  rw [ensureDatabaseUser_run] at h
  split at h
  · cases h
  · rcases hx : (execute (.createDatabaseUser db login.name login.name)).run i with ⟨_ | ⟨⟩, j⟩
    · rw [hx] at h
      cases h
      exact execute_failure hx
    · rw [hx] at h
      cases h

/-- A grant that makes sure of a user and then runs a statement on the database for that user
fails before anything changed, or after creating the user, refused to render the statement. -/
theorem ensure_then_execute_failure {db : DatabaseName} {login : Login}
    {stmt : PrincipalName → Statement} {g : Grant}
    (hc : ∀ user db' user' login', stmt user ≠ .createDatabaseUser db' user' login')
    {i i' : Inventory} {err : Error}
    (h : (ensureDatabaseUser db login >>= fun user => execute (stmt user) >>= fun _ => pure g).run i
      = (.error err, i')) :
    i' = i ∨ (i.CreatedUser i' db login ∧ (stmt login.name).render = .error err) := by
  rw [Action.run_bind] at h
  rcases hx : (ensureDatabaseUser db login).run i with ⟨_ | user, j⟩
  · rw [hx] at h
    cases h
    exact .inl (ensureDatabaseUser_failure hx)
  · rw [hx] at h
    have hrun := Action.bind_pure_failure h
    have hj := execute_failure hrun
    subst hj
    rcases ensureDatabaseUser_ok hx with rfl | ⟨hcreated, rfl⟩
    · exact .inl rfl
    · exact .inr ⟨hcreated, execute_failure_render (hc login.name) hrun⟩

/-! ## Failed grants and revokes -/

/-- A statement run for its effect alone fails leaving the inventory as it was. -/
theorem execute_then_failsLeaving (stmt : Statement) (g : Grant) :
    Action.FailsLeaving (execute stmt >>= fun _ => pure g) fun i i' _ => i' = i :=
  fun _ _ _ h => execute_failure (Action.bind_pure_failure h)

/-- How a grant may fail: before anything changed, or after a login's database user was
created, refusing to render the statement on that database that was to follow. -/
def GrantFailure (i i' : Inventory) (err : Error) : Prop :=
  i' = i ∨ ∃ db login, i.CreatedUser i' db login ∧
    ∃ stmt : Statement, stmt.database? = some db ∧ stmt.render = .error err

theorem GrantFailure.refl (i : Inventory) (err : Error) : GrantFailure i i err := .inl rfl

/-- Making sure of a user and then granting on its database fails as a grant may. -/
theorem ensure_then_execute_failsLeaving {db : DatabaseName} {login : Login}
    {stmt : PrincipalName → Statement} (hdb : ∀ user, (stmt user).database? = some db)
    (hc : ∀ user db' user' login', stmt user ≠ .createDatabaseUser db' user' login') (g : Grant) :
    Action.FailsLeaving
      (ensureDatabaseUser db login >>= fun user => execute (stmt user) >>= fun _ => pure g)
      GrantFailure := by
  intro i i' err h
  rcases ensure_then_execute_failure hc h with rfl | ⟨hcreated, hrender⟩
  · exact .refl _ err
  · exact .inr ⟨db, login, hcreated, stmt login.name, hdb _, hrender⟩

/-- A revoke that fails leaves the inventory as it was: its lookups only read, and the one
statement it may run stops before the store when it cannot be rendered. -/
theorem Connector.revoke_failsLeaving (c : Connector) (g : Grant) :
    Action.FailsLeaving (c.revoke g) fun i i' _ => i' = i := by
  have refl : ∀ (i : Inventory) (_ : Error), i = i := fun _ _ => rfl
  unfold Connector.revoke
  dsimp only
  split
  · refine (Action.ReadsStore.userLogin _).bind_failsLeaving (fun login =>
      (Action.ReadsStore.databaseOf _).bind_failsLeaving (fun db =>
        (Action.ReadsStore.ofExcept _).bind_failsLeaving (fun ⟨permission, state⟩ =>
          (Action.ReadsStore.existingDatabaseUser _ _).bind_failsLeaving (fun user => ?_)
            refl) refl) refl) refl
    cases user with
    | none => exact .pure _ _
    | some user => exact fun _ _ _ => execute_failure
  · refine (Action.ReadsStore.requireMembership _).bind_failsLeaving (fun _ =>
      (Action.ReadsStore.memberLogin _).bind_failsLeaving (fun login =>
        (Action.ReadsStore.serverRoleOf _).bind_failsLeaving (fun role =>
          fun _ _ _ => execute_failure) refl) refl) refl
  · refine (Action.ReadsStore.requireMembership _).bind_failsLeaving (fun _ =>
      (Action.ReadsStore.memberLogin _).bind_failsLeaving (fun login =>
        (Action.ReadsStore.databaseRoleOf _).bind_failsLeaving (fun ⟨db, role⟩ =>
          (Action.ReadsStore.existingDatabaseUser _ _).bind_failsLeaving (fun user => ?_)
            refl) refl) refl) refl
    cases user with
    | none => exact .pure _ _
    | some user => exact fun _ _ _ => execute_failure
  · exact (Action.ReadsStore.fail _).inspects.failsLeaving refl

/-- A grant fails before anything changed, or after creating a login's database user when the
statement that was to follow cannot be rendered. -/
theorem Connector.grant_failsLeaving (c : Connector) (e : Entitlement) (p : ResourceId) :
    Action.FailsLeaving (c.grant e p) GrantFailure := by
  have refl := GrantFailure.refl
  have unchanged : ∀ stmt : Statement,
      Action.FailsLeaving (execute stmt >>= fun _ => pure (⟨e, p⟩ : Grant)) GrantFailure :=
    fun stmt i i' err h => .inl (execute_then_failsLeaving stmt _ i i' err h)
  unfold Connector.grant
  dsimp only
  split
  · refine (Action.ReadsStore.userLogin _).bind_failsLeaving (fun login =>
      (Action.ReadsStore.databaseOf _).bind_failsLeaving (fun db =>
        (Action.ReadsStore.ofExcept _).bind_failsLeaving (fun ⟨permission, state⟩ =>
          ensure_then_execute_failsLeaving (fun _ => rfl) (by intro _ _ _ _ h; cases h) _)
            refl) refl) refl
  · refine (Action.ReadsStore.requireMembership _).bind_failsLeaving (fun _ =>
      (Action.ReadsStore.memberLogin _).bind_failsLeaving (fun login =>
        (Action.ReadsStore.serverRoleOf _).bind_failsLeaving (fun role => unchanged _)
          refl) refl) refl
  · refine (Action.ReadsStore.requireMembership _).bind_failsLeaving (fun _ =>
      (Action.ReadsStore.memberLogin _).bind_failsLeaving (fun login =>
        (Action.ReadsStore.databaseRoleOf _).bind_failsLeaving (fun ⟨db, role⟩ =>
          ensure_then_execute_failsLeaving (fun _ => rfl) (by intro _ _ _ _ h; cases h) _)
            refl) refl) refl
  · exact (Action.ReadsStore.fail _).bind_failsLeaving (fun _ => .pure _ _) refl

/-- Provisioning that fails: a revoke leaves the inventory as it was, and a grant leaves it as
it was or, having created the login's database user (the user added, the `CREATE USER`
journaled, the database's cached mappings forgotten), refused to render the statement on that
database that was to follow. -/
theorem Connector.provisioning_failure_effect (c : Connector) (i i' : Inventory) (err : Error) :
    (∀ g, (c.revoke g).run i = (.error err, i') → i' = i) ∧
    (∀ e p, (c.grant e p).run i = (.error err, i') →
      i' = i ∨ ∃ db login, i.CreatedUser i' db login ∧
        ∃ stmt : Statement, stmt.database? = some db ∧ stmt.render = .error err) :=
  ⟨fun g => c.revoke_failsLeaving g i i' err, fun e p => c.grant_failsLeaving e p i i' err⟩

/-- A database role whose name cannot be quoted: the grant of its membership fails only after
the login's database user was created. -/
theorem Connector.provisioning_failure_effect_unquotable_role :
    let i : Inventory :=
      ⟨(Store.empty.addDatabaseRole ⟨⟨"sales"⟩, ⟨7⟩⟩ ⟨"ro;le"⟩).addLogin ⟨259⟩ ⟨"alice"⟩,
        MappingCache.empty 0⟩
    let c := Connector.build Catalog.builtin .onCompletion 10000 50 1000
    let run := (c.grant ⟨⟨.databaseRole, "sales:7"⟩, "member"⟩ ⟨.user, "259"⟩).run i
    run.1 = .error (.id (.unquotable "ro;le")) ∧
      ∃ db login, i.CreatedUser run.2 db login ∧ ∃ stmt : Statement,
        stmt.database? = some db ∧ stmt.render = .error (.id (.unquotable "ro;le")) := by
  intro i c run
  have hrun : run = (.error (.id (.unquotable "ro;le")), run.2) := Prod.ext rfl rfl
  have hchanged : run.2 ≠ i := fun h => by
    have hjournal := congrArg (fun j : Inventory => j.store.journal.length) h
    revert hjournal
    decide
  exact ⟨rfl, ((c.provisioning_failure_effect i run.2 _).2 _ _ hrun).resolve_left hchanged⟩

/-- The same grant, refused as an identifier that cannot be quoted, with the `CREATE USER` of
the login's user already journaled. -/
theorem Connector.grant_unquotable_role_creates_user :
    let i : Inventory :=
      ⟨(Store.empty.addDatabaseRole ⟨⟨"sales"⟩, ⟨7⟩⟩ ⟨"ro;le"⟩).addLogin ⟨259⟩ ⟨"alice"⟩,
        MappingCache.empty 0⟩
    let c := Connector.build Catalog.builtin .onCompletion 10000 50 1000
    let run := (c.grant ⟨⟨.databaseRole, "sales:7"⟩, "member"⟩ ⟨.user, "259"⟩).run i
    run.1 = .error (.id (.unquotable "ro;le")) ∧
      run.2.store.journal = [.createDatabaseUser ⟨"sales"⟩ ⟨"alice"⟩ ⟨"alice"⟩] :=
  ⟨rfl, rfl⟩

end AccessReview
