import AccessReview.Provision

/-!
# Review sessions

A session is a connector working on one inventory through a sequence of steps: catalog
changes, traversal pages, permission pages, grants and revokes, lookups of database users,
and requests to the cache. The inventory carries over from step to step, and so do the
next token of the last traversal call that succeeded and the next cursor of the last
permission page that succeeded, so that a step may resume from them.

Each step is reported with its outcome (a failed step does not stop the session), the member
pages and mapping lookups the store served during it, and the statements it executed,
rendered.

Catalog rows come as text. Role keys and database names are always checked; login, role
and user names are checked too, unless the rows say they are to be kept as written.
-/

namespace AccessReview

/-- A resource as requested: its type name and resource text. -/
structure ResourceText where
  /-- The type name. -/
  type : String
  /-- The resource text. -/
  resource : String
  deriving DecidableEq, Repr

/-- The resource a request names. -/
def ResourceText.parse (r : ResourceText) : Except Error ResourceId := do
  return ⟨← ResourceType.parse r.type, r.resource⟩

/-- A securable's scope as requested, with its database name as text. -/
inductive ScopeText where
  /-- The server. -/
  | server
  /-- A database. -/
  | database (db : String)
  /-- A schema of a database. -/
  | schema (db : String) (id : Int)
  /-- A table of a database. -/
  | table (db : String) (id : Int)
  deriving DecidableEq, Repr

/-- The scope a request names. -/
def ScopeText.parse : ScopeText → Except Error PermissionScope
  | .server => .ok .server
  | .database db => return .database (← DatabaseName.parse db)
  | .schema db id => return .schema (← DatabaseName.parse db) id
  | .table db id => return .table (← DatabaseName.parse db) id

/-- Catalog rows to add to the store, as text. -/
structure CatalogRows where
  /-- Direct role members: the role key and the member. -/
  members : List (String × MemberRow)
  /-- Database principals and the server principals behind them. -/
  mappings : List (String × PrincipalId × ServerPrincipal)
  /-- Permission rows by securable. -/
  permissions : List (ScopeText × List PermissionRow)
  /-- Database names by id. -/
  databases : List (Int × String)
  /-- Login names by id. -/
  logins : List (PrincipalId × String)
  /-- Server role names by id. -/
  serverRoles : List (PrincipalId × String)
  /-- Database role names by database and id. -/
  databaseRoles : List (String × PrincipalId × String)
  /-- Database user names by database and login id. -/
  databaseUsers : List (String × PrincipalId × String)
  /-- Whether login, role and user names are kept as written, unchecked. -/
  uncheckedNames : Bool
  deriving DecidableEq, Repr

/-- Catalog rows adding nothing. -/
def CatalogRows.none : CatalogRows := ⟨[], [], [], [], [], [], [], [], false⟩

/-- Adding catalog rows to a store: rows added before a refused one stay added. -/
abbrev Loading (α : Type) := ExceptT Error (StateM Store) α

/-- The loading step that checks a row's field. -/
def Loading.check {α : Type} (r : Except Error α) : Loading α := ExceptT.mk (pure r)

/-- Adds catalog rows, table after table and row after row, stopping at the first refused
row. -/
def CatalogRows.load (rows : CatalogRows) : Loading Unit := do
  let name (raw : String) : Except Error PrincipalName :=
    if rows.uncheckedNames then .ok ⟨raw⟩ else PrincipalName.parse raw
  for (key, m) in rows.members do
    let key ← Loading.check (RoleKey.parse key)
    modify (·.addRoleMember key m)
  for (db, id, server) in rows.mappings do
    let db ← Loading.check (DatabaseName.parse db)
    modify (·.mapDatabasePrincipal ⟨db, id⟩ server)
  for (scope, rs) in rows.permissions do
    let scope ← Loading.check scope.parse
    for r in rs do
      modify (·.addPermissionRow scope r)
  for (id, db) in rows.databases do
    let db ← Loading.check (DatabaseName.parse db)
    modify (·.addDatabase id db)
  for (id, n) in rows.logins do
    let n ← Loading.check (name n)
    modify (·.addLogin id n)
  for (id, n) in rows.serverRoles do
    let n ← Loading.check (name n)
    modify (·.addServerRole id n)
  for (db, id, n) in rows.databaseRoles do
    let db ← Loading.check (DatabaseName.parse db)
    let n ← Loading.check (name n)
    modify (·.addDatabaseRole ⟨db, id⟩ n)
  for (db, id, n) in rows.databaseUsers do
    let db ← Loading.check (DatabaseName.parse db)
    let n ← Loading.check (name n)
    modify (·.addDatabaseUser db id n)

/-- Adds catalog rows to a store: the refusal, if a row was refused, and the store after. -/
def CatalogRows.addTo (rows : CatalogRows) (s : Store) : Except Error Unit × Store :=
  (ExceptT.run rows.load).run s

/-- Where a paged call takes its token from. -/
inductive TokenSource where
  /-- The token given. -/
  | given (token : String)
  /-- The next token of the last call of its kind that succeeded. -/
  | resume
  deriving DecidableEq, Repr

/-- A step of a session. -/
inductive Step where
  /-- One traversal page of a role's membership grants. -/
  | roleGrants (root : ResourceText) (pageSize : Nat) (token : TokenSource)
  /-- Traversal pages until the last one, a failure, or `maxCalls` calls. -/
  | drain (root : ResourceText) (pageSize : Nat) (maxCalls : Nat) (token : TokenSource)
  /-- The grants given rows give on a resource. -/
  | decodePermissions (scope : ScopeText) (resource : ResourceText) (rows : List PermissionRow)
  /-- One page of the grants of a securable's stored rows. -/
  | permissionGrants (scope : ScopeText) (resource : ResourceText) (cursor : TokenSource)
      (pageSize : Nat)
  /-- Gives a principal an entitlement. -/
  | grant (entitlement : String) (principal : ResourceText)
  /-- Takes an entitlement away from a principal. -/
  | revoke (entitlement : String) (principal : ResourceText)
  /-- Looks up the database user of a login. -/
  | user (db : String) (login : PrincipalId)
  /-- A request to the cache. -/
  | cache (command : CacheCommand)
  /-- Adds catalog rows to the store. -/
  | addRows (rows : CatalogRows)
  deriving DecidableEq, Repr

/-- What a step gave. -/
inductive Outcome where
  /-- A page of grants. -/
  | page (p : GrantPage)
  /-- The pages of a drain, the last one possibly a failure. -/
  | pages (ps : List (Except Error GrantPage))
  /-- Grants. -/
  | grants (gs : List Grant)
  /-- The grant that now holds. -/
  | granted (g : Grant)
  /-- The step was carried out. -/
  | done
  /-- The database user found, if any. -/
  | user (name : Option PrincipalName)
  /-- The cache's answer. -/
  | cache (reply : CacheReply)
  deriving Repr

/-- A step's outcome and what the store did during it. -/
structure Report where
  /-- The outcome, or the failure. -/
  result : Except Error Outcome
  /-- Member pages served during the step. -/
  fetches : Nat
  /-- Mapping lookups answered during the step. -/
  lookups : Nat
  /-- Statements executed during the step, rendered. -/
  executed : List String
  deriving Repr

/-- A connector at work on an inventory. -/
structure Session where
  /-- The settings. -/
  connector : Connector
  /-- The store and cache. -/
  inventory : Inventory
  /-- The next token of the last traversal call that succeeded. -/
  roleToken : String
  /-- The next cursor of the last permission page that succeeded. -/
  permissionCursor : String
  deriving Repr

/-- A session over a store holding catalog rows, with a cache. -/
def Session.start (c : Connector) (cache : MappingCache) (rows : CatalogRows) :
    Except Error Session :=
  match rows.addTo .empty with
  | (.error e, _) => .error e
  | (.ok (), store) => .ok ⟨c, ⟨store, cache⟩, "", ""⟩

/-- Runs an action on the session's inventory. -/
def Session.act {α : Type} (s : Session) (a : Action α) : Except Error α × Session :=
  let (r, i) := a.run s.inventory
  (r, { s with inventory := i })

/-- The token a traversal call starts from. -/
def Session.roleTokenOf (s : Session) : TokenSource → String
  | .given t => t
  | .resume => s.roleToken

/-- The cursor a permission page starts from. -/
def Session.cursorOf (s : Session) : TokenSource → String
  | .given t => t
  | .resume => s.permissionCursor

/-- Runs traversal calls from a token, at most `calls` of them, until a page is the last or a
call fails; each call that succeeds becomes the one to resume from. -/
def Session.drainFrom (s : Session) (root : ResourceId) (size : Nat) :
    Nat → String → List (Except Error GrantPage) × Session
  | 0, _ => ([], s)
  | calls + 1, token =>
    match s.act (s.connector.roleGrants root token size) with
    | (.error e, s) => ([.error e], s)
    | (.ok p, s) =>
      let s := { s with roleToken := p.nextToken }
      if p.isLast then ([.ok p], s)
      else
        let (rest, s) := s.drainFrom root size calls p.nextToken
        (.ok p :: rest, s)

/-- Carries out a step: its outcome and the session after it. -/
def Session.perform (s : Session) : Step → Except Error Outcome × Session
  | .roleGrants root size src =>
    match root.parse with
    | .error e => (.error e, s)
    | .ok root =>
      match s.act (s.connector.roleGrants root (s.roleTokenOf src) size) with
      | (.ok p, s) => (.ok (.page p), { s with roleToken := p.nextToken })
      | (.error e, s) => (.error e, s)
  | .drain root size calls src =>
    match root.parse with
    | .error e => (.error e, s)
    | .ok root =>
      let (pages, s) := s.drainFrom root size calls (s.roleTokenOf src)
      (.ok (.pages pages), s)
  | .decodePermissions scope resource rows =>
    match scope.parse, resource.parse with
    | .error e, _ | _, .error e => (.error e, s)
    | .ok scope, .ok resource =>
      let (r, s) := s.act (s.connector.decodePermissions scope resource rows)
      (r.map .grants, s)
  | .permissionGrants scope resource src size =>
    match scope.parse, resource.parse with
    | .error e, _ | _, .error e => (.error e, s)
    | .ok scope, .ok resource =>
      match s.act (s.connector.permissionGrants scope resource (s.cursorOf src) size) with
      | (.ok p, s) => (.ok (.page p), { s with permissionCursor := p.nextToken })
      | (.error e, s) => (.error e, s)
  | .grant e principal =>
    match Entitlement.parse e, principal.parse with
    | .error e, _ | _, .error e => (.error e, s)
    | .ok e, .ok principal =>
      let (r, s) := s.act (s.connector.grant e principal)
      (r.map .granted, s)
  | .revoke e principal =>
    match Entitlement.parse e, principal.parse with
    | .error e, _ | _, .error e => (.error e, s)
    | .ok e, .ok principal =>
      let (r, s) := s.act (s.connector.revoke ⟨e, principal⟩)
      (r.map fun _ => .done, s)
  | .user db login =>
    match DatabaseName.parse db with
    | .error e => (.error e, s)
    | .ok db => (.ok (.user (s.inventory.store.databaseUser? db login)), s)
  | .cache command =>
    let (reply, cache) := s.inventory.cache.apply command
    (.ok (.cache reply), { s with inventory := { s.inventory with cache := cache } })
  | .addRows rows =>
    let (r, store) := rows.addTo s.inventory.store
    (r.map fun _ => .done, { s with inventory := { s.inventory with store := store } })

/-- Carries out a step and reports it. -/
def Session.step (s : Session) (step : Step) : Report × Session :=
  let before := s.inventory.store
  let (result, s) := s.perform step
  let after := s.inventory.store
  let executed := (after.journal.drop before.journal.length).filterMap fun stmt =>
    stmt.render.toOption
  (⟨result, after.memberFetches - before.memberFetches,
    after.mappingLookups - before.mappingLookups, executed⟩, s)

/-- Carries out steps in order, reporting each. -/
def Session.run (s : Session) : List Step → List Report × Session
  | [] => ([], s)
  | step :: rest =>
    let (report, s) := s.step step
    let (reports, s) := s.run rest
    (report :: reports, s)

end AccessReview
