import Mathlib
import AccessReview.Proofs.UserCreation
import AccessReview.Proofs.StatementChecks

/-! # Revoking what was just granted

A grant looks up names (the principal's login, the database, the role, the permission) and
then runs its statements: a `CREATE USER` when the login has no user in the database, and the
statement that grants. None of this changes a name, so a revoke of the grant handed back,
right after, looks up the same login, database, role and permission (`Action.ReadsNames`).
It finds the user the grant used: the one that was there, or the one the grant created, which
the store recorded under the login it finds by name, the grant's own login when login names
are distinct. The statement it runs checks the same names in the same order as the one the
grant ran (`Statement.checks_undo`), so it renders too. Hence the revoke succeeds and runs
exactly one statement, the undoing of the last one the grant ran (`Statement.undo?`), and
changes nothing else (`Connector.revoke_undoes_grant`).
-/

namespace AccessReview

/-! ## Statements undone -/

/-- The statement that takes back what a statement gives: a membership added is dropped, a
permission granted is revoked, only its grant option when that is what was granted. -/
def Statement.undo? : Statement → Option Statement
  | .addServerRoleMember role login => some (.dropServerRoleMember role login)
  | .addDatabaseRoleMember db role user => some (.dropDatabaseRoleMember db role user)
  | .grantDatabasePermission db permission user withOption =>
    some (.revokeDatabasePermission db permission user withOption)
  | _ => none

/-- A statement and its undoing check the same names in the same order. -/
theorem Statement.checks_undo {s u : Statement} (h : s.undo? = some u) : u.checks = s.checks := by
  cases s with
  | addServerRoleMember role login => cases h; rfl
  | addDatabaseRoleMember db role user => cases h; rfl
  | grantDatabasePermission db permission user withOption =>
    cases h
    cases withOption <;> rfl
  | _ => cases h

/-- The undoing of a statement that renders renders too. -/
theorem Statement.render_undo {s u : Statement} (h : s.undo? = some u) {t : String}
    (ht : s.render = .ok t) : ∃ t', u.render = .ok t' := by
  rw [Statement.render_isOk_iff, ← Statement.accepted_checks_iff, Statement.checks_undo h,
    Statement.accepted_checks_iff, ← Statement.render_isOk_iff]
  exact ⟨t, ht⟩

/-! ## Lookups of names -/

/-- Two stores holding the same names: logins, databases, server roles and database roles. -/
structure Store.SameNames (s s' : Store) : Prop where
  /-- The same logins. -/
  logins : s'.logins = s.logins
  /-- The same databases. -/
  databases : s'.databases = s.databases
  /-- The same server roles. -/
  serverRoles : s'.serverRoles = s.serverRoles
  /-- The same database roles. -/
  databaseRoles : s'.databaseRoles = s.databaseRoles

theorem Store.SameNames.refl (s : Store) : s.SameNames s := ⟨rfl, rfl, rfl, rfl⟩

theorem Store.SameNames.trans {s s' s'' : Store} (h : s.SameNames s') (h' : s'.SameNames s'') :
    s.SameNames s'' :=
  ⟨h'.logins.trans h.logins, h'.databases.trans h.databases, h'.serverRoles.trans h.serverRoles,
    h'.databaseRoles.trans h.databaseRoles⟩

namespace Action

variable {α β : Type}

/-- An action that reads only names: it changes nothing, and on every inventory whose store
holds the same names it answers the same. -/
def ReadsNames (a : Action α) : Prop :=
  ∀ i j : Inventory, i.store.SameNames j.store → a.run j = ((a.run i).1, j)

theorem ReadsNames.pure (x : α) : ReadsNames (Pure.pure x : Action α) :=
  fun _ _ _ => rfl

theorem ReadsNames.ofExcept (r : Except Error α) : ReadsNames (Action.ofExcept r) :=
  fun _ _ _ => rfl

theorem ReadsNames.fail (e : Error) : ReadsNames (Action.fail e : Action α) :=
  fun _ _ _ => rfl

/-- An action reading names leaves the inventory it runs on. -/
theorem ReadsNames.run_eq {a : Action α} (h : ReadsNames a) (i : Inventory) :
    a.run i = ((a.run i).1, i) :=
  h i i (.refl _)

/-- Reading names after reading names only reads names. -/
theorem ReadsNames.bind {x : Action α} {f : α → Action β} (hx : ReadsNames x)
    (hf : ∀ v, ReadsNames (f v)) : ReadsNames (x >>= f) := by
  intro i j hij
  rw [run_bind, run_bind, hx i j hij, hx.run_eq i]
  cases (x.run i).1 with
  | ok v => exact hf v i j hij
  | error e => rfl

/-- Reading the store and going on with what depends only on its names. -/
theorem ReadsNames.store_bind {f : Store → Action α} (hf : ∀ s, ReadsNames (f s))
    (hnames : ∀ s s', s.SameNames s' → f s' = f s) : ReadsNames (Action.store >>= f) := by
  intro i j hij
  rw [run_bind, run_store, run_bind, run_store]
  dsimp only
  rw [hnames i.store j.store hij]
  exact hf i.store i j hij

/-- The first step of an action that succeeded, when it only reads names: it succeeded on the
same inventory, and what follows succeeded from there. -/
theorem ReadsNames.bind_ok {x : Action α} {f : α → Action β} (hx : ReadsNames x)
    {i i' : Inventory} {b : β} (h : (x >>= f).run i = (.ok b, i')) :
    ∃ v, x.run i = (.ok v, i) ∧ (f v).run i = (.ok b, i') := by
  rw [run_bind, hx.run_eq i] at h
  rcases hr : (x.run i).1 with v | v
  · rw [hr] at h
    cases h
  · rw [hr] at h
    exact ⟨v, by rw [hx.run_eq i, hr], h⟩

/-- A read of names that succeeded on one inventory succeeds alike on one holding the same
names, and what follows runs there. -/
theorem ReadsNames.bind_run_of {x : Action α} {f : α → Action β} (hx : ReadsNames x)
    {i j : Inventory} (hij : i.store.SameNames j.store) {v : α} (hv : x.run i = (.ok v, i)) :
    (x >>= f).run j = (f v).run j := by
  rw [run_bind, hx i j hij, hv]

theorem ReadsNames.loginOf (principal : ResourceId) : ReadsNames (loginOf principal) := by
  unfold AccessReview.loginOf
  refine (ReadsNames.ofExcept _).bind fun id =>
    ReadsNames.store_bind (fun s => ?_) fun s s' h => by simp only [Store.login?, h.logins]
  split
  · exact .pure _
  · exact .fail _

theorem ReadsNames.userLogin (principal : ResourceId) : ReadsNames (userLogin principal) := by
  unfold AccessReview.userLogin
  split
  · exact .loginOf _
  · exact .fail _

theorem ReadsNames.memberLogin (principal : ResourceId) : ReadsNames (memberLogin principal) := by
  unfold AccessReview.memberLogin
  split
  · exact .loginOf _
  · exact .loginOf _
  · exact .fail _

theorem ReadsNames.databaseOf (resource : ResourceId) : ReadsNames (databaseOf resource) := by
  unfold AccessReview.databaseOf
  split
  · refine ReadsNames.store_bind (fun s => ?_) fun s s' h => by rw [h.databases]
    split
    · exact .pure _
    · exact .fail _
  · exact .fail _

theorem ReadsNames.serverRoleOf (resource : ResourceId) : ReadsNames (serverRoleOf resource) := by
  unfold AccessReview.serverRoleOf
  refine (ReadsNames.ofExcept _).bind fun id =>
    ReadsNames.store_bind (fun s => ?_) fun s s' h => by rw [h.serverRoles]
  split
  · exact .pure _
  · exact .fail _

theorem ReadsNames.databaseRoleOf (resource : ResourceId) : ReadsNames (databaseRoleOf resource) := by
  unfold AccessReview.databaseRoleOf
  refine (ReadsNames.ofExcept _).bind fun key => ?_
  split
  · refine ReadsNames.store_bind (fun s => ?_) fun s s' h => by rw [h.databaseRoles]
    split
    · exact .pure _
    · exact .fail _
  · exact .fail _

theorem ReadsNames.requireMembership (e : Entitlement) : ReadsNames (requireMembership e) := by
  unfold AccessReview.requireMembership
  split
  · exact .pure _
  · exact .fail _

end Action

/-! ## Statements run -/

/-- A statement that ran was rendered. -/
theorem execute_ok_render {stmt : Statement} {i j : Inventory}
    (h : (execute stmt).run i = (.ok (), j)) : ∃ t, stmt.render = .ok t := by
  rw [execute_run] at h
  cases hr : stmt.render with
  | error e => rw [hr] at h; cases h
  | ok t => exact ⟨t, rfl⟩

/-- A statement that renders and creates no user runs, journaled and changing nothing else. -/
theorem execute_run_journaled {stmt : Statement} (hc : stmt.createsUser = false) {t : String}
    (ht : stmt.render = .ok t) (i : Inventory) :
    (execute stmt).run i =
      (.ok (), { i with store := { i.store with journal := i.store.journal ++ [stmt] } }) := by
  have hnot : ∀ db user login, stmt ≠ .createDatabaseUser db user login := by
    rintro db user login rfl
    cases hc
  rw [execute_run, ht]
  dsimp only
  rw [Store.execute_of_not_create hnot]

/-- A statement run before handing back a value: it rendered, was journaled, and nothing else
changed. -/
theorem execute_then_pure_ok {stmt : Statement} (hc : stmt.createsUser = false) {i i' : Inventory}
    {g g' : Grant} (h : (execute stmt >>= fun _ => pure g).run i = (.ok g', i')) :
    g' = g ∧ i' = { i with store := { i.store with journal := i.store.journal ++ [stmt] } } ∧
      ∃ t, stmt.render = .ok t := by
  rw [Action.run_bind] at h
  rcases hx : (execute stmt).run i with ⟨_ | ⟨⟩, j⟩
  · rw [hx] at h
    cases h
  rw [hx] at h
  dsimp only at h
  rw [Action.run_pure, Prod.mk.injEq, Except.ok.injEq] at h
  obtain ⟨rfl, rfl⟩ := h
  obtain ⟨t, ht⟩ := execute_ok_render hx
  have hrun := execute_run_journaled hc ht i
  rw [hx] at hrun
  exact ⟨rfl, (Prod.mk.inj hrun).2, t, ht⟩

/-- The undoing of a statement that renders runs, journaled and changing nothing else: it
renders too, and no undoing creates a user. -/
theorem execute_undo_run {s u : Statement} (h : s.undo? = some u) {t : String}
    (ht : s.render = .ok t) (i : Inventory) :
    (execute u).run i =
      (.ok (), { i with store := { i.store with journal := i.store.journal ++ [u] } }) := by
  obtain ⟨t', ht'⟩ := Statement.render_undo h ht
  have hc : u.createsUser = false := by
    cases s <;> cases h <;> rfl
  exact execute_run_journaled hc ht' i

/-- A login's database user after it was made sure of: the one there, or the one created,
named as the login. -/
theorem ensureDatabaseUser_ok_found {db : DatabaseName} {login : Login} {i j : Inventory}
    {user : PrincipalName} (h : (ensureDatabaseUser db login).run i = (.ok user, j)) :
    (i.store.databaseUser? db login.id = some user ∧ j = i) ∨
      (i.CreatedUser j db login ∧ user = login.name) := by
  rw [ensureDatabaseUser_run] at h
  rcases hu : i.store.databaseUser? db login.id with _ | found
  · rw [hu] at h
    rcases hx : (execute (.createDatabaseUser db login.name login.name)).run i with ⟨_ | ⟨⟩, k⟩
    · rw [hx] at h
      cases h
    · rw [hx] at h
      cases h
      obtain ⟨s, hs, rfl⟩ := execute_ok hx
      obtain ⟨id, hid, rfl⟩ := Store.execute_create_eq_ok hs
      exact .inr ⟨⟨hu, id, hid, rfl⟩, rfl⟩
  · rw [hu] at h
    cases h
    exact .inl ⟨rfl, rfl⟩

/-- A grant that made sure of its login's database user and then ran a statement for that user:
the statement rendered and was journaled last, after the `CREATE USER` if one ran; no name
changed; and the login's user in the database is now the one the statement names, since in a
store whose logins have distinct names a user created is recorded under the grant's login. -/
theorem ensure_then_execute_ok {db : DatabaseName} {login : Login}
    {stmt : PrincipalName → Statement} (hc : ∀ user, (stmt user).createsUser = false)
    {i i' : Inventory} (hnames : (i.store.logins.rows.map Prod.snd).Nodup)
    (hlogin : i.store.login? login.id = some login) {g g' : Grant}
    (h : (ensureDatabaseUser db login >>= fun user => execute (stmt user) >>= fun _ => pure g).run i
      = (.ok g', i')) :
    g' = g ∧ ∃ user pre, i'.store.journal = i.store.journal ++ pre ++ [stmt user] ∧
      i.store.SameNames i'.store ∧ i'.store.databaseUser? db login.id = some user ∧
      ∃ t, (stmt user).render = .ok t := by
  rw [Action.run_bind] at h
  rcases hx : (ensureDatabaseUser db login).run i with ⟨_ | user, j⟩
  · rw [hx] at h
    cases h
  rw [hx] at h
  dsimp only at h
  obtain ⟨rfl, rfl, t, ht⟩ := execute_then_pure_ok (hc user) h
  refine ⟨rfl, user, ?_⟩
  rcases ensureDatabaseUser_ok_found hx with ⟨hfound, rfl⟩ | ⟨⟨-, id, hid, rfl⟩, rfl⟩
  · exact ⟨[], by simp, ⟨rfl, rfl, rfl, rfl⟩, hfound, t, ht⟩
  · -- the user created is recorded under the grant's own login
    have hid' : id = login.id := by
      rw [Store.loginNamed?_of_login? hnames hlogin] at hid
      exact (Option.some.inj hid).symm
    subst hid'
    exact ⟨[.createDatabaseUser db login.name login.name], by simp, ⟨rfl, rfl, rfl, rfl⟩,
      Table.find?_insert_self _ _ _, t, ht⟩

/-- Looking up a login's database user where it has one, and going on with it. -/
theorem existingDatabaseUser_bind_run {β : Type} {db : DatabaseName} {login : Login}
    {k : Option PrincipalName → Action β} {i : Inventory} {user : PrincipalName}
    (huser : i.store.databaseUser? db login.id = some user) :
    (existingDatabaseUser db login >>= k).run i = (k (some user)).run i := by
  unfold existingDatabaseUser
  rw [Action.run_bind, Action.run_bind, Action.run_store]
  dsimp only
  rw [Action.run_pure, huser]

/-- In a store whose logins have distinct names, a revoke of the grant a successful grant hands
back, run right after it, succeeds and runs exactly one statement: the undoing of the last
statement the grant ran. Nothing else changes. -/
theorem Connector.revoke_undoes_grant (c : Connector) {i i' : Inventory}
    (hnames : (i.store.logins.rows.map Prod.snd).Nodup) {e : Entitlement} {p : ResourceId}
    {g : Grant} (hgrant : (c.grant e p).run i = (.ok g, i')) :
    ∃ pre stmt undo, i'.store.journal = i.store.journal ++ pre ++ [stmt] ∧
      stmt.undo? = some undo ∧
      (c.revoke g).run i' =
        (.ok (), { i' with store := { i'.store with journal := i'.store.journal ++ [undo] } }) := by
  unfold Connector.grant at hgrant
  unfold Connector.revoke
  -- one case per kind of resource; in each, the grant's lookups are peeled off and replayed
  -- in the revoke, on the inventory the grant left, which holds the same names
  split at hgrant
  next hdb =>
    obtain ⟨login, hlogin, h⟩ := (Action.ReadsNames.userLogin p).bind_ok hgrant
    obtain ⟨db, hdbOf, h⟩ := (Action.ReadsNames.databaseOf _).bind_ok h
    obtain ⟨⟨permission, state⟩, hperm, h⟩ := (Action.ReadsNames.ofExcept _).bind_ok h
    dsimp only at h
    obtain ⟨rfl, user, pre, hjournal, hsame, huser, t, ht⟩ :=
      ensure_then_execute_ok (fun _ => rfl) hnames (userLogin_ok hlogin).2 h
    refine ⟨pre, _, _, hjournal, rfl, ?_⟩
    dsimp only
    simp only [hdb]
    rw [(Action.ReadsNames.userLogin p).bind_run_of hsame hlogin,
      (Action.ReadsNames.databaseOf _).bind_run_of hsame hdbOf,
      (Action.ReadsNames.ofExcept _).bind_run_of hsame hperm]
    dsimp only
    -- the revoke finds the user the grant's statement named
    rw [existingDatabaseUser_bind_run huser]
    dsimp only
    exact execute_undo_run rfl ht i'
  next hsr =>
    obtain ⟨⟨⟩, hreq, h⟩ := (Action.ReadsNames.requireMembership e).bind_ok hgrant
    obtain ⟨login, hlogin, h⟩ := (Action.ReadsNames.memberLogin p).bind_ok h
    obtain ⟨role, hrole, h⟩ := (Action.ReadsNames.serverRoleOf _).bind_ok h
    obtain ⟨rfl, hi', t, ht⟩ := execute_then_pure_ok rfl h
    have hsame : i.store.SameNames i'.store := by
      rw [hi']
      exact ⟨rfl, rfl, rfl, rfl⟩
    refine ⟨[], _, _, by rw [hi', List.append_nil], rfl, ?_⟩
    dsimp only
    simp only [hsr]
    rw [(Action.ReadsNames.requireMembership e).bind_run_of hsame hreq,
      (Action.ReadsNames.memberLogin p).bind_run_of hsame hlogin,
      (Action.ReadsNames.serverRoleOf _).bind_run_of hsame hrole]
    exact execute_undo_run rfl ht i'
  next hdr =>
    obtain ⟨⟨⟩, hreq, h⟩ := (Action.ReadsNames.requireMembership e).bind_ok hgrant
    obtain ⟨login, hlogin, h⟩ := (Action.ReadsNames.memberLogin p).bind_ok h
    obtain ⟨⟨db, role⟩, hrole, h⟩ := (Action.ReadsNames.databaseRoleOf _).bind_ok h
    dsimp only at h
    obtain ⟨rfl, user, pre, hjournal, hsame, huser, t, ht⟩ :=
      ensure_then_execute_ok (fun _ => rfl) hnames (memberLogin_ok hlogin).2 h
    refine ⟨pre, _, _, hjournal, rfl, ?_⟩
    dsimp only
    simp only [hdr]
    rw [(Action.ReadsNames.requireMembership e).bind_run_of hsame hreq,
      (Action.ReadsNames.memberLogin p).bind_run_of hsame hlogin,
      (Action.ReadsNames.databaseRoleOf _).bind_run_of hsame hrole]
    dsimp only
    rw [existingDatabaseUser_bind_run huser]
    dsimp only
    exact execute_undo_run rfl ht i'
  next =>
    -- no other kind of resource is granted
    rw [Action.run_bind, Action.run_fail] at hgrant
    cases hgrant

/-- A membership of the database role `sales:7` given to a login with no user in `sales`: the
grant creates the user and adds it to the role; the revoke finds that user and drops it. -/
theorem Connector.revoke_undoes_grant_new_user :
    let i : Inventory :=
      ⟨(Store.empty.addDatabaseRole ⟨⟨"sales"⟩, ⟨7⟩⟩ ⟨"readers"⟩).addLogin ⟨259⟩ ⟨"alice"⟩,
        MappingCache.empty 0⟩
    let c := Connector.build Catalog.builtin .onCompletion 10000 50 1000
    let e : Entitlement := ⟨⟨.databaseRole, "sales:7"⟩, "member"⟩
    let p : ResourceId := ⟨.user, "259"⟩
    let i' := ((c.grant e p).run i).2
    (i.store.logins.rows.map Prod.snd).Nodup ∧ (c.grant e p).run i = (.ok ⟨e, p⟩, i') ∧
      ∃ pre stmt undo, i'.store.journal = i.store.journal ++ pre ++ [stmt] ∧
        stmt.undo? = some undo ∧
        (c.revoke ⟨e, p⟩).run i' =
          (.ok (), { i' with store := { i'.store with journal := i'.store.journal ++ [undo] } }) := by
  intro i c e p i'
  have hnames : (i.store.logins.rows.map Prod.snd).Nodup := by decide
  have hgrant : (c.grant e p).run i = (.ok ⟨e, p⟩, i') := Prod.ext (by decide +kernel) rfl
  exact ⟨hnames, hgrant, Connector.revoke_undoes_grant c hnames hgrant⟩

end AccessReview
