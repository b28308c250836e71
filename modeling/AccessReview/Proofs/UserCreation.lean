import Mathlib
import AccessReview.Proofs.CacheBlind

/-! # Each database user is created once

A grant of a database permission or of a database role membership makes sure the grant's login
has a database user, running `CREATE USER` when the store records none. The store, executing
that statement, records the new user under the login it finds by the statement's login name, so
later calls see the user only if that reverse lookup finds the login the connector meant. In a
store whose logins have distinct names it does (`Store.loginNamed?_of_login?`).

Every grant or revoke then journals statements that create no user and changes nothing else,
after at most one `CREATE USER`, made by such a grant for its own login where that login had no
user (`ProvisionCall.effect`). Over any sequence of grants and revokes, whatever each answers,
no database and login get a second `CREATE USER`, and each user created stays recorded under its
login (`ProvisionCall.runAll_creates_user_once`).
-/

namespace AccessReview

/-- The database and login name a statement creates a user for, if it creates one. -/
def Statement.userCreated? : Statement → Option (DatabaseName × PrincipalName)
  | .createDatabaseUser db _ login => some (db, login)
  | _ => none

theorem Statement.userCreated?_of_createsUser {stmt : Statement} (h : stmt.createsUser = false) :
    stmt.userCreated? = none := by
  cases stmt <;> simp_all [Statement.createsUser, Statement.userCreated?]

namespace Store

/-- The store after the database user of a login was created in a database: the user, named as
the login, recorded under the login's id, and the `CREATE USER` journaled. -/
def createUser (s : Store) (db : DatabaseName) (login : Login) : Store :=
  { s.addDatabaseUser db login.id login.name with
    journal := s.journal ++ [.createDatabaseUser db login.name login.name] }

theorem databaseUser?_createUser (s : Store) (db db' : DatabaseName) (login : Login)
    (id : PrincipalId) :
    (s.createUser db login).databaseUser? db' id =
      if (db', id) = (db, login.id) then some login.name else s.databaseUser? db' id := by
  split
  · next h =>
    rw [Prod.mk.injEq] at h
    obtain ⟨rfl, rfl⟩ := h
    exact Table.find?_insert_self _ _ _
  · next h => exact Table.find?_insert_ne _ _ h

/-- `s'` is `s` with statements that create no user journaled, and nothing else changed. -/
def Journals (s s' : Store) : Prop :=
  ∃ stmts : List Statement, (∀ st ∈ stmts, st.createsUser = false) ∧
    s' = { s with journal := s.journal ++ stmts }

theorem Journals.refl (s : Store) : Journals s s :=
  ⟨[], by simp, by simp⟩

theorem Journals.logins {s s' : Store} (hj : Journals s s') : s'.logins = s.logins := by
  obtain ⟨stmts, -, rfl⟩ := hj
  rfl

theorem Journals.databaseUser? {s s' : Store} (hj : Journals s s') (db : DatabaseName)
    (id : PrincipalId) : s'.databaseUser? db id = s.databaseUser? db id := by
  obtain ⟨stmts, -, rfl⟩ := hj
  rfl

/-- After a login's user was created, the store gives the login's name as its user. -/
theorem Journals.databaseUser?_createUser {s s' : Store} {db : DatabaseName} {login : Login}
    (hj : Journals (s.createUser db login) s') :
    s'.databaseUser? db login.id = some login.name := by
  rw [hj.databaseUser?, Store.databaseUser?_createUser, if_pos rfl]

/-- A statement that creates no user is journaled and changes nothing else. -/
theorem journals_execute {s s' : Store} {stmt : Statement} (hc : stmt.createsUser = false)
    (h : s.execute stmt = .ok s') : Journals s s' := by
  have hnot : ∀ db user login, stmt ≠ .createDatabaseUser db user login := by
    rintro db user login rfl
    cases hc
  rw [execute_of_not_create hnot] at h
  cases h
  exact ⟨[stmt], by simpa using hc, rfl⟩

/-- In a store whose logins have distinct names, the login found by the name of a login is
that login. -/
theorem loginNamed?_of_login? {s : Store} (hnames : (s.logins.rows.map Prod.snd).Nodup)
    {id : PrincipalId} {login : Login} (h : s.login? id = some login) :
    s.loginNamed? login.name = some login.id := by
  obtain ⟨name, hname, rfl⟩ := Option.map_eq_some_iff.1 h
  have hmem : (id, name) ∈ s.logins.rows := Table.mem_rows_of_valueIn hname
  obtain ⟨kv, hkv⟩ : ∃ kv, s.logins.rows.find? (fun kv => kv.2 == name) = some kv :=
    Option.isSome_iff_exists.1 (List.find?_isSome.2 ⟨_, hmem, by simp⟩)
  have hname' : kv.2 = name := by simpa using List.find?_some hkv
  have hsame : kv = (id, name) :=
    List.inj_on_of_nodup_map hnames (List.mem_of_find?_eq_some hkv) hmem hname'
  simp [loginNamed?, Table.keyWhere, hkv, hsame]

/-- The login found under an id has its name recorded under that id. -/
theorem logins_find?_of_login? {s : Store} {id : PrincipalId} {login : Login}
    (h : s.login? id = some login) : s.logins.find? login.id = some login.name := by
  obtain ⟨name, hname, rfl⟩ := Option.map_eq_some_iff.1 h
  exact hname

/-- Logins with distinct names: one name, one id. -/
theorem eq_of_logins_find? {s : Store} (hnames : (s.logins.rows.map Prod.snd).Nodup)
    {id id' : PrincipalId} {name : PrincipalName} (h : s.logins.find? id = some name)
    (h' : s.logins.find? id' = some name) : id = id' := by
  have hsame := List.inj_on_of_nodup_map hnames (Table.mem_rows_of_valueIn h)
    (Table.mem_rows_of_valueIn h') rfl
  exact (Prod.mk.injEq _ _ _ _ ▸ hsame).1

end Store

/-! ## What provisioning leaves -/

namespace Action

variable {α β : Type}

/-- What an action leaves, whatever it answers: `P i i'` of the inventory `i` it ran on and the
inventory `i'` it left. -/
def Leaves (a : Action α) (P : Inventory → Inventory → Prop) : Prop :=
  ∀ i, P i (a.run i).2

variable {P : Inventory → Inventory → Prop}

theorem ReadsStore.leaves {a : Action α} (ha : ReadsStore a) (hP : ∀ i, P i i) :
    Leaves a P := by
  intro i
  rw [(ha i).1]
  exact hP i

/-- After a read, what follows runs on the same inventory; what it leaves, `Q v` for the value
`v` read, is what the whole leaves. -/
theorem ReadsStore.leaves_bind_of {x : Action α} {f : α → Action β}
    {Q : α → Inventory → Inventory → Prop} (hx : ReadsStore x)
    (hf : ∀ v, Leaves (f v) (Q v))
    (hQ : ∀ i v i', x.run i = (.ok v, i) → Q v i i' → P i i') (hP : ∀ i, P i i) :
    Leaves (x >>= f) P := by
  intro i
  rw [run_bind]
  have hstay := (hx i).1
  rcases hr : x.run i with ⟨r, j⟩
  rw [hr] at hstay
  dsimp only at hstay
  subst hstay
  cases r with
  | ok v => exact hQ j v _ hr (hf v j)
  | error e => exact hP j

theorem ReadsStore.leaves_bind {x : Action α} {f : α → Action β} (hx : ReadsStore x)
    (hf : ∀ v, Leaves (f v) P) (hP : ∀ i, P i i) : Leaves (x >>= f) P :=
  hx.leaves_bind_of hf (fun _ _ _ _ h => h) hP

/-- A value returned after an action leaves what the action left. -/
theorem Leaves.bind_pure {x : Action α} {g : α → β} (h : Leaves x P) :
    Leaves (x >>= fun v => pure (g v)) P := by
  intro i
  rw [run_bind]
  have hx := h i
  rcases hr : x.run i with ⟨r, j⟩
  rw [hr] at hx
  cases r <;> exact hx

end Action

/-- A statement that creates no user journals at most itself. -/
theorem leaves_execute {stmt : Statement} (hc : stmt.createsUser = false) :
    Action.Leaves (execute stmt) fun i i' => Store.Journals i.store i'.store := by
  intro i
  rcases hr : (execute stmt).run i with ⟨r, j⟩
  cases r with
  | ok u =>
    obtain ⟨s, hs, rfl⟩ := execute_ok hr
    exact Store.journals_execute hc hs
  | error e =>
    rw [execute_failure hr]
    exact Store.Journals.refl _

/-- What making sure of a login's user and then running a statement for the user leaves: only
journaled statements that create no user, after creating the login's user in some database. -/
def MadeSureOf (login : Login) (i i' : Inventory) : Prop :=
  Store.Journals i.store i'.store ∨
    ∃ db j, i.CreatedUser j db login ∧ Store.Journals j.store i'.store

theorem MadeSureOf.refl (login : Login) (i : Inventory) : MadeSureOf login i i :=
  .inl (.refl _)

theorem leaves_ensure_then_execute {db : DatabaseName} {login : Login}
    {stmt : PrincipalName → Statement} (hc : ∀ user, (stmt user).createsUser = false)
    (g : Grant) :
    Action.Leaves
      (ensureDatabaseUser db login >>= fun user => execute (stmt user) >>= fun _ => pure g)
      (MadeSureOf login) := by
  intro i
  rw [Action.run_bind]
  rcases hx : (ensureDatabaseUser db login).run i with ⟨_ | user, j⟩
  · -- a failure changed nothing
    rw [ensureDatabaseUser_failure hx]
    exact .refl _ _
  · have hexec :
        Store.Journals j.store ((execute (stmt user) >>= fun _ => pure g).run j).2.store :=
      Action.Leaves.bind_pure (leaves_execute (hc user)) j
    rcases ensureDatabaseUser_ok hx with rfl | ⟨hcreated, -⟩
    · exact .inl hexec
    · exact .inr ⟨db, j, hcreated, hexec⟩

/-- A login read for a principal is the login of the principal's id. -/
theorem loginOf_ok {principal : ResourceId} {i : Inventory} {login : Login}
    (h : (loginOf principal).run i = (.ok login, i)) :
    principal.principalId = .ok login.id ∧ i.store.login? login.id = some login := by
  unfold loginOf at h
  rw [Action.run_bind, Action.run_ofExcept] at h
  cases hid : principal.principalId with
  | error err =>
    rw [hid] at h
    cases h
  | ok id =>
    rw [hid] at h
    dsimp only at h
    rw [Action.run_bind, Action.run_store] at h
    dsimp only at h
    cases hl : i.store.login? id with
    | none =>
      rw [hl] at h
      cases h
    | some found =>
      rw [hl] at h
      cases h
      -- the login found under an id carries that id
      obtain ⟨name, -, rfl⟩ := Option.map_eq_some_iff.1 hl
      exact ⟨rfl, hl⟩

theorem userLogin_ok {principal : ResourceId} {i : Inventory} {login : Login}
    (h : (userLogin principal).run i = (.ok login, i)) :
    principal.principalId = .ok login.id ∧ i.store.login? login.id = some login := by
  unfold userLogin at h
  split at h
  · exact loginOf_ok h
  · cases h

theorem memberLogin_ok {principal : ResourceId} {i : Inventory} {login : Login}
    (h : (memberLogin principal).run i = (.ok login, i)) :
    principal.principalId = .ok login.id ∧ i.store.login? login.id = some login := by
  unfold memberLogin at h
  split at h
  · exact loginOf_ok h
  · exact loginOf_ok h
  · cases h

/-- What a grant may leave: only journaled statements that create no user, after creating,
when it gives a database permission or a database role membership, the database user of the
login of its principal. -/
def GrantEffect (e : Entitlement) (p : ResourceId) (i i' : Inventory) : Prop :=
  Store.Journals i.store i'.store ∨
    ∃ db login j, (e.resource.type = .database ∨ e.resource.type = .databaseRole) ∧
      p.principalId = .ok login.id ∧ i.store.login? login.id = some login ∧
      i.CreatedUser j db login ∧ Store.Journals j.store i'.store

theorem GrantEffect.refl (e : Entitlement) (p : ResourceId) (i : Inventory) :
    GrantEffect e p i i :=
  .inl (.refl _)

/-- A grant that makes sure of the user of its principal's login leaves a grant's effect. -/
theorem GrantEffect.of_madeSureOf {e : Entitlement} {p : ResourceId}
    (hkind : e.resource.type = .database ∨ e.resource.type = .databaseRole) {i i' : Inventory}
    {login : Login} (hlogin : p.principalId = .ok login.id ∧ i.store.login? login.id = some login)
    (h : MadeSureOf login i i') : GrantEffect e p i i' := by
  rcases h with hj | ⟨db, j, hcreated, hj⟩
  · exact .inl hj
  · exact .inr ⟨db, login, j, hkind, hlogin.1, hlogin.2, hcreated, hj⟩

theorem Connector.grant_leaves (c : Connector) (e : Entitlement) (p : ResourceId) :
    Action.Leaves (c.grant e p) (GrantEffect e p) := by
  have refl := GrantEffect.refl e p
  have journals : ∀ stmt : Statement, stmt.createsUser = false →
      Action.Leaves (execute stmt >>= fun _ => pure (⟨e, p⟩ : Grant)) (GrantEffect e p) :=
    fun stmt hc i => .inl (Action.Leaves.bind_pure (leaves_execute hc) i)
  unfold Connector.grant
  dsimp only
  split
  · next hdb =>
    -- the login read first is the one whose user the grant makes sure of
    refine (Action.ReadsStore.userLogin _).leaves_bind_of (fun login =>
      (Action.ReadsStore.databaseOf _).leaves_bind (fun db =>
        (Action.ReadsStore.ofExcept _).leaves_bind (fun ⟨permission, state⟩ =>
          leaves_ensure_then_execute (fun _ => rfl) _) (MadeSureOf.refl login))
        (MadeSureOf.refl login))
      (fun i login i' hlogin h => .of_madeSureOf (.inl hdb) (userLogin_ok hlogin) h) refl
  · refine (Action.ReadsStore.requireMembership _).leaves_bind (fun _ =>
      (Action.ReadsStore.memberLogin _).leaves_bind (fun login =>
        (Action.ReadsStore.serverRoleOf _).leaves_bind (fun role => journals _ rfl) refl)
        refl) refl
  · next hrole =>
    refine (Action.ReadsStore.requireMembership _).leaves_bind (fun _ =>
      (Action.ReadsStore.memberLogin _).leaves_bind_of (fun login =>
        (Action.ReadsStore.databaseRoleOf _).leaves_bind (fun ⟨db, role⟩ =>
          leaves_ensure_then_execute (fun _ => rfl) _) (MadeSureOf.refl login))
        (fun i login i' hlogin h => .of_madeSureOf (.inr hrole) (memberLogin_ok hlogin) h) refl)
      refl
  · exact ((Action.ReadsStore.fail _).leaves refl).bind_pure

theorem Connector.revoke_leaves (c : Connector) (g : Grant) :
    Action.Leaves (c.revoke g) fun i i' => Store.Journals i.store i'.store := by
  have refl : ∀ i : Inventory, Store.Journals i.store i.store := fun i => .refl _
  unfold Connector.revoke
  dsimp only
  split
  · refine (Action.ReadsStore.userLogin _).leaves_bind (fun login =>
      (Action.ReadsStore.databaseOf _).leaves_bind (fun db =>
        (Action.ReadsStore.ofExcept _).leaves_bind (fun ⟨permission, state⟩ =>
          (Action.ReadsStore.existingDatabaseUser _ _).leaves_bind (fun user => ?_) refl)
          refl) refl) refl
    cases user with
    | none => exact (Action.ReadsStore.pure _).leaves refl
    | some user => exact leaves_execute rfl
  · refine (Action.ReadsStore.requireMembership _).leaves_bind (fun _ =>
      (Action.ReadsStore.memberLogin _).leaves_bind (fun login =>
        (Action.ReadsStore.serverRoleOf _).leaves_bind (fun role => leaves_execute rfl) refl)
        refl) refl
  · refine (Action.ReadsStore.requireMembership _).leaves_bind (fun _ =>
      (Action.ReadsStore.memberLogin _).leaves_bind (fun login =>
        (Action.ReadsStore.databaseRoleOf _).leaves_bind (fun ⟨db, role⟩ =>
          (Action.ReadsStore.existingDatabaseUser _ _).leaves_bind (fun user => ?_) refl)
          refl) refl) refl
    cases user with
    | none => exact (Action.ReadsStore.pure _).leaves refl
    | some user => exact leaves_execute rfl
  · exact (Action.ReadsStore.fail _).leaves refl

/-! ## Sequences of grants and revokes -/

/-- A grant or a revoke asked of a connector. -/
inductive ProvisionCall where
  /-- Gives a principal an entitlement. -/
  | grant (e : Entitlement) (principal : ResourceId)
  /-- Takes a grant away. -/
  | revoke (g : Grant)
  deriving DecidableEq, Repr

namespace ProvisionCall

/-- The inventory a call leaves, whatever it answers. -/
def run (c : Connector) (i : Inventory) : ProvisionCall → Inventory
  | .grant e p => ((c.grant e p).run i).2
  | .revoke g => ((c.revoke g).run i).2

/-- The inventory calls made in order leave, each made on the inventory the one before left. -/
def runAll (c : Connector) (i : Inventory) : List ProvisionCall → Inventory
  | [] => i
  | call :: rest => runAll c (call.run c i) rest

theorem runAll_append (c : Connector) (i : Inventory) (pre rest : List ProvisionCall) :
    runAll c i (pre ++ rest) = runAll c (runAll c i pre) rest := by
  induction pre generalizing i with
  | nil => rfl
  | cons call pre ih => exact ih _

/-- What one call does to a store: journal statements that create no user, after creating —
for a grant of a database permission or a database role membership only — the database user
of the grant's login where it had none. -/
inductive Effect : ProvisionCall → Store → Store → Prop where
  /-- Only statements that create no user were journaled. -/
  | journals {call s s'} : Store.Journals s s' → Effect call s s'
  /-- The user of the grant's login was created first. -/
  | creates {e p s s'} {db : DatabaseName} {login : Login} :
      (e.resource.type = .database ∨ e.resource.type = .databaseRole) →
      p.principalId = .ok login.id → s.login? login.id = some login →
      s.databaseUser? db login.id = none → Store.Journals (s.createUser db login) s' →
      Effect (.grant e p) s s'

/-- In a store whose logins have distinct names, every call has a call's effect: the user the
store records for a `CREATE USER` is the one of the login the connector meant. -/
theorem effect (c : Connector) {i : Inventory}
    (hnames : (i.store.logins.rows.map Prod.snd).Nodup) (call : ProvisionCall) :
    Effect call i.store (call.run c i).store := by
  cases call with
  | revoke g => exact .journals (c.revoke_leaves g i)
  | grant e p =>
    rcases c.grant_leaves e p i with hj | ⟨db, login, j, hkind, hid, hlogin, hcreated, hj⟩
    · exact .journals hj
    · obtain ⟨hnone, id, hnamed, rfl⟩ := hcreated
      -- the store finds the login by its name, so it records the user under the login's id
      have hsame : id = login.id := by
        rw [Store.loginNamed?_of_login? hnames hlogin] at hnamed
        exact (Option.some.inj hnamed).symm
      subst hsame
      exact .creates hkind hid hlogin hnone hj

theorem Effect.logins {call : ProvisionCall} {s s' : Store} (h : Effect call s s') :
    s'.logins = s.logins := by
  cases h with
  | journals hj => exact hj.logins
  | creates _ _ _ _ hj => exact hj.logins

theorem Effect.journal_prefix {call : ProvisionCall} {s s' : Store} (h : Effect call s s') :
    s.journal <+: s'.journal := by
  cases h with
  | journals hj =>
    obtain ⟨stmts, -, rfl⟩ := hj
    exact List.prefix_append _ _
  | creates _ _ _ _ hj =>
    obtain ⟨stmts, -, rfl⟩ := hj
    exact (List.prefix_append _ _).trans (List.prefix_append _ _)

/-- A call never takes a database user away or renames one. -/
theorem Effect.databaseUser? {call : ProvisionCall} {s s' : Store} (h : Effect call s s')
    {db : DatabaseName} {id : PrincipalId} {user : PrincipalName}
    (hu : s.databaseUser? db id = some user) : s'.databaseUser? db id = some user := by
  cases h with
  | journals hj =>
    rw [hj.databaseUser?]
    exact hu
  | creates _ _ _ hnone hj =>
    rw [hj.databaseUser?, Store.databaseUser?_createUser, if_neg]
    · exact hu
    · -- the created user's key had no user, this one has
      intro hkey
      rw [Prod.mk.injEq] at hkey
      obtain ⟨rfl, rfl⟩ := hkey
      rw [hnone] at hu
      cases hu

/-- A `CREATE USER` a call journals creates, named as the login, the user of the login of a
grant's principal that had none there, and the store then records it. -/
theorem Effect.createDatabaseUser_mem {call : ProvisionCall} {s s' : Store}
    (h : Effect call s s') {db : DatabaseName} {user name : PrincipalName}
    (hmem : Statement.createDatabaseUser db user name ∈ s'.journal.drop s.journal.length) :
    ∃ e p login, call = .grant e p ∧
      (e.resource.type = .database ∨ e.resource.type = .databaseRole) ∧
      p.principalId = .ok login.id ∧ s.login? login.id = some login ∧
      user = login.name ∧ name = login.name ∧ s.databaseUser? db login.id = none ∧
      s'.databaseUser? db login.id = some login.name := by
  cases h with
  | journals hj =>
    -- nothing journaled creates a user
    obtain ⟨stmts, hc, rfl⟩ := hj
    rw [List.drop_left] at hmem
    cases hc _ hmem
  | @creates e p _ _ db₀ login hkind hid hlogin hnone hj =>
    -- the call journals its `CREATE USER` first, then only statements that create no user
    have hjournal := hj.databaseUser?_createUser
    obtain ⟨stmts, hc, rfl⟩ := hj
    simp only [Store.createUser, List.append_assoc, List.singleton_append, List.drop_left,
      List.mem_cons, Statement.createDatabaseUser.injEq] at hmem
    rcases hmem with ⟨rfl, rfl, rfl⟩ | hother
    · exact ⟨e, p, login, rfl, hkind, hid, hlogin, rfl, rfl, hnone, hjournal⟩
    · cases hc _ hother

theorem runAll_databaseUser? (c : Connector) {db : DatabaseName} {id : PrincipalId}
    {user : PrincipalName} :
    ∀ {i : Inventory}, (i.store.logins.rows.map Prod.snd).Nodup →
      i.store.databaseUser? db id = some user → ∀ calls,
        (runAll c i calls).store.databaseUser? db id = some user
  | _, _, hu, [] => hu
  | i, hnames, hu, call :: rest => by
    have heffect := effect c hnames call
    have hnames' : ((call.run c i).store.logins.rows.map Prod.snd).Nodup :=
      heffect.logins ▸ hnames
    exact runAll_databaseUser? c hnames' (heffect.databaseUser? hu) rest

/-- The users created since a store `s₀`, as databases and login names, in the order made. -/
def created (s₀ s : Store) : List (DatabaseName × PrincipalName) :=
  (s.journal.drop s₀.journal.length).filterMap Statement.userCreated?

/-- What calls made since `s₀` leave in a store `s`: the logins of `s₀`, its journal extended,
no database and login name created twice, and each user created recorded under the login of
its name. -/
structure CreatedOnce (s₀ s : Store) : Prop where
  logins : s.logins = s₀.logins
  journal : s₀.journal <+: s.journal
  nodup : (created s₀ s).Nodup
  recorded : ∀ db name, (db, name) ∈ created s₀ s →
    ∃ id, s₀.logins.find? id = some name ∧ s.databaseUser? db id = some name

theorem CreatedOnce.refl (s₀ : Store) : CreatedOnce s₀ s₀ where
  logins := rfl
  journal := List.prefix_refl _
  nodup := by simp [created]
  recorded := by simp [created]

theorem created_append {s₀ s : Store} (h : s₀.journal <+: s.journal) (stmts : List Statement) :
    (s.journal ++ stmts).drop s₀.journal.length =
      s.journal.drop s₀.journal.length ++ stmts :=
  List.drop_append_of_le_length h.length_le

theorem filterMap_userCreated? {stmts : List Statement}
    (hc : ∀ st ∈ stmts, st.createsUser = false) : stmts.filterMap Statement.userCreated? = [] :=
  List.filterMap_eq_nil_iff.2 fun st hst => Statement.userCreated?_of_createsUser (hc st hst)

theorem created_of_journals {s₀ s s' : Store} (hpre : s₀.journal <+: s.journal)
    (hj : Store.Journals s s') : created s₀ s' = created s₀ s := by
  obtain ⟨stmts, hc, rfl⟩ := hj
  simp only [created]
  rw [created_append hpre, List.filterMap_append, filterMap_userCreated? hc, List.append_nil]

theorem created_of_createUser {s₀ s s' : Store} (hpre : s₀.journal <+: s.journal)
    {db : DatabaseName} {login : Login} (hj : Store.Journals (s.createUser db login) s') :
    created s₀ s' = created s₀ s ++ [(db, login.name)] := by
  obtain ⟨stmts, hc, rfl⟩ := hj
  simp only [created, Store.createUser]
  rw [List.append_assoc, created_append hpre, List.filterMap_append, List.filterMap_append,
    filterMap_userCreated? hc]
  rfl

/-- One call keeps what the calls since `s₀` leave. -/
theorem CreatedOnce.effect {s₀ s s' : Store} (hnames : (s₀.logins.rows.map Prod.snd).Nodup)
    (h : CreatedOnce s₀ s) {call : ProvisionCall} (heffect : Effect call s s') :
    CreatedOnce s₀ s' := by
  have hlogins := heffect.logins.trans h.logins
  have hprefix := h.journal.trans heffect.journal_prefix
  cases heffect with
  | journals hj =>
    have hcreated := created_of_journals h.journal hj
    refine ⟨hlogins, hprefix, hcreated ▸ h.nodup, ?_⟩
    intro db name hin
    obtain ⟨id, hname, huser⟩ := h.recorded db name (hcreated ▸ hin)
    exact ⟨id, hname, (hj.databaseUser? db id).trans huser⟩
  | @creates e p _ _ db login hkind hid hlogin hnone hj =>
    have hcreated := created_of_createUser h.journal hj
    have hfind : s₀.logins.find? login.id = some login.name :=
      h.logins ▸ Store.logins_find?_of_login? hlogin
    -- a user created before under the login's name would be the login's own, which it lacks
    have hfresh : (db, login.name) ∉ created s₀ s := by
      intro hin
      obtain ⟨id, hname, huser⟩ := h.recorded db login.name hin
      rw [Store.eq_of_logins_find? hnames hname hfind, hnone] at huser
      cases huser
    refine ⟨hlogins, hprefix, ?_, ?_⟩
    · rw [hcreated, ← List.concat_eq_append]
      exact h.nodup.concat hfresh
    · rw [hcreated]
      intro db' name hin
      rcases List.mem_append.1 hin with hold | hnew
      · obtain ⟨id, hname, huser⟩ := h.recorded db' name hold
        exact ⟨id, hname, (Effect.creates hkind hid hlogin hnone hj).databaseUser? huser⟩
      · rw [List.mem_singleton, Prod.mk.injEq] at hnew
        obtain ⟨rfl, rfl⟩ := hnew
        exact ⟨login.id, hfind, hj.databaseUser?_createUser⟩

theorem runAll_createdOnce (c : Connector) {s₀ : Store}
    (hnames : (s₀.logins.rows.map Prod.snd).Nodup) :
    ∀ {i : Inventory}, CreatedOnce s₀ i.store → ∀ calls,
      CreatedOnce s₀ (runAll c i calls).store
  | _, h, [] => h
  | i, h, call :: rest => by
    have hnames' : (i.store.logins.rows.map Prod.snd).Nodup := h.logins ▸ hnames
    exact runAll_createdOnce c hnames (h.effect hnames (effect c hnames' call)) rest

/-- From a store whose logins have distinct names, over any sequence of grants and revokes,
whatever each answers: no database and login name get a second `CREATE USER`; every
`CREATE USER` a call journals is made by a grant of a database permission or a database role
membership, for the login of the grant's principal, which had no user in the database; and from
then on the store gives that login's name as its user there. -/
theorem runAll_creates_user_once (c : Connector) (i : Inventory)
    (hnames : (i.store.logins.rows.map Prod.snd).Nodup) (calls : List ProvisionCall) :
    (created i.store (runAll c i calls).store).Nodup ∧
    ∀ (pre : List ProvisionCall) (call : ProvisionCall) (post : List ProvisionCall),
      calls = pre ++ call :: post →
      let before := runAll c i pre
      let after := call.run c before
      ∀ (db : DatabaseName) (user name : PrincipalName),
        Statement.createDatabaseUser db user name ∈
          after.store.journal.drop before.store.journal.length →
        ∃ (e : Entitlement) (p : ResourceId) (login : Login), call = .grant e p ∧
          (e.resource.type = .database ∨ e.resource.type = .databaseRole) ∧
          p.principalId = .ok login.id ∧ before.store.login? login.id = some login ∧
          user = login.name ∧ name = login.name ∧
          before.store.databaseUser? db login.id = none ∧
          after.store.databaseUser? db login.id = some login.name ∧
          (runAll c i calls).store.databaseUser? db login.id = some login.name := by
  refine ⟨(runAll_createdOnce c hnames (CreatedOnce.refl _) calls).nodup, ?_⟩
  intro pre call post hcalls before after db user name hmem
  have hnames' : (before.store.logins.rows.map Prod.snd).Nodup :=
    (runAll_createdOnce c hnames (CreatedOnce.refl _) pre).logins ▸ hnames
  have heffect := effect c hnames' call
  obtain ⟨e, p, login, hcall, hkind, hid, hlogin, huser, hname, hnone, hafter⟩ :=
    heffect.createDatabaseUser_mem hmem
  refine ⟨e, p, login, hcall, hkind, hid, hlogin, huser, hname, hnone, hafter, ?_⟩
  -- the calls after this one keep the user
  rw [hcalls, runAll_append]
  exact runAll_databaseUser? c (heffect.logins ▸ hnames') hafter post

/-- Two database permissions granted to one login in one database: the login's names are
distinct, so the first grant creates its user and the second finds it. -/
theorem runAll_creates_user_once_two_permissions :
    let i : Inventory :=
      ⟨(Store.empty.addDatabase 7 ⟨"sales"⟩).addLogin ⟨259⟩ ⟨"alice"⟩,
        MappingCache.empty 0⟩
    let c := Connector.build Catalog.builtin .onCompletion 10000 50 1000
    let calls := [ProvisionCall.grant ⟨⟨.database, "7"⟩, "SL"⟩ ⟨.user, "259"⟩,
      .grant ⟨⟨.database, "7"⟩, "IN"⟩ ⟨.user, "259"⟩]
    (i.store.logins.rows.map Prod.snd).Nodup ∧
    (created i.store (runAll c i calls).store).Nodup ∧
    ∀ (pre : List ProvisionCall) (call : ProvisionCall) (post : List ProvisionCall),
      calls = pre ++ call :: post →
      let before := runAll c i pre
      let after := call.run c before
      ∀ (db : DatabaseName) (user name : PrincipalName),
        Statement.createDatabaseUser db user name ∈
          after.store.journal.drop before.store.journal.length →
        ∃ (e : Entitlement) (p : ResourceId) (login : Login), call = .grant e p ∧
          (e.resource.type = .database ∨ e.resource.type = .databaseRole) ∧
          p.principalId = .ok login.id ∧ before.store.login? login.id = some login ∧
          user = login.name ∧ name = login.name ∧
          before.store.databaseUser? db login.id = none ∧
          after.store.databaseUser? db login.id = some login.name ∧
          (runAll c i calls).store.databaseUser? db login.id = some login.name := by
  intro i c calls
  have hnames : (i.store.logins.rows.map Prod.snd).Nodup := by decide
  exact ⟨hnames, runAll_creates_user_once c i hnames calls⟩

end ProvisionCall

end AccessReview
