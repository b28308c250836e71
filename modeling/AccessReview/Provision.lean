import AccessReview.Connector
import AccessReview.Text.Integer

/-!
# Provisioning

Granting and revoking act on the server through statements. A database permission
`database:<id>:<code>[-grant]` is given to a user's login: the database is named by its
numeric id, the code must be a database permission of the vocabulary, and the login's
database user is created first when it has none. A role membership
`server-role:<id>:member` or `database-role:<db>:<id>:member` is given to a user's or a
group's login; a database role membership also creates the database user first. Every
other entitlement cannot be provisioned.

Each check is made in a fixed order, and the first failure is reported: the principal, its
login, the database or role, the permission, and only then are statements run. A statement
is rendered before it reaches the store, so a name that cannot be quoted stops it there.
Statements run one after another with no transaction: a `CREATE USER` that ran stays when
the statement after it fails. Creating a database user forgets the cached mappings of the
database. Revoking from a login that has no database user does nothing.
-/

namespace AccessReview

/-- Renders a statement, then has the store execute it. -/
def execute (stmt : Statement) : Action Unit := do
  let _ ← Action.ofExcept stmt.render
  Action.change (·.execute stmt)

/-- The login of a user or group resource. -/
def loginOf (principal : ResourceId) : Action Login := do
  let id ← Action.ofExcept principal.principalId
  match (← Action.store).login? id with
  | some login => return login
  | none => Action.fail (.notFound .login id.display)

/-- The login of a principal that may hold database permissions: a user. -/
def userLogin (principal : ResourceId) : Action Login :=
  if principal.type == .user then loginOf principal
  else Action.fail (.resource (.notUser principal.display))

/-- The login of a principal that may be a role member: a user or a group. -/
def memberLogin (principal : ResourceId) : Action Login :=
  match principal.type with
  | .user | .group => loginOf principal
  | _ => Action.fail (.resource (.notMember principal.display))

/-- The database a database resource names by its numeric id. -/
def databaseOf (resource : ResourceId) : Action DatabaseName := do
  let some id := Text.parseI64 resource.resource.toList
    | Action.fail (.entitlement (.databaseIdNotNumeric resource.display))
  match (← Action.store).databases.find? id with
  | some db => return db
  | none => Action.fail (.notFound .database (toString id))

/-- The name of the server role a resource names. -/
def serverRoleOf (resource : ResourceId) : Action PrincipalName := do
  let id ← Action.ofExcept resource.principalId
  match (← Action.store).serverRoles.find? id with
  | some name => return name
  | none => Action.fail (.notFound .serverRole id.display)

/-- The database and name of the database role a resource names. -/
def databaseRoleOf (resource : ResourceId) : Action (DatabaseName × PrincipalName) := do
  let key ← Action.ofExcept (RoleKey.ofResource resource)
  let some db := key.databaseName?
    | Action.fail (.resource (.notDatabaseRole resource.display))
  match (← Action.store).databaseRoles.find? ⟨db, key.roleId⟩ with
  | some name => return (db, name)
  | none => Action.fail (.notFound .databaseRole key.display)

/-- The permission name and state of a database permission entitlement. -/
def Connector.databasePermission (c : Connector) (e : Entitlement) :
    Except Error (String × PermissionState) :=
  let (code, state) := e.permissionParts
  match (c.catalog.get .database).permissionName? code with
  | some permission => .ok (permission, state)
  | none => .error (.entitlement (.unknownDatabasePermission e.display))

/-- Fails unless an entitlement is a role membership. -/
def requireMembership (e : Entitlement) : Action Unit :=
  if e.slug == memberSlug then return ()
  else Action.fail (.entitlement (.notMembership e.display))

/-- The database user of a login, created (named as the login) when it has none; creating it
forgets the cached mappings of the database. -/
def ensureDatabaseUser (db : DatabaseName) (login : Login) : Action PrincipalName := do
  match (← Action.store).databaseUser? db login.id with
  | some user => return user
  | none =>
    execute (.createDatabaseUser db login.name login.name)
    Action.onCache fun c => ((), c.invalidateDatabase db)
    return login.name

/-- The database user of a login, if it has one. -/
def existingDatabaseUser (db : DatabaseName) (login : Login) : Action (Option PrincipalName) :=
  return (← Action.store).databaseUser? db login.id

/-- The refusal of an entitlement that cannot be provisioned. -/
def notProvisionable (e : Entitlement) : Error := .entitlement (.notProvisionable e.display)

/-- Gives a principal an entitlement; the grant that now holds. -/
def Connector.grant (c : Connector) (e : Entitlement) (principal : ResourceId) : Action Grant := do
  match e.resource.type with
  | .database =>
    let login ← userLogin principal
    let db ← databaseOf e.resource
    let (permission, state) ← Action.ofExcept (c.databasePermission e)
    let user ← ensureDatabaseUser db login
    execute (.grantDatabasePermission db permission user (state == .withGrantOption))
  | .serverRole =>
    requireMembership e
    let login ← memberLogin principal
    let role ← serverRoleOf e.resource
    execute (.addServerRoleMember role login.name)
  | .databaseRole =>
    requireMembership e
    let login ← memberLogin principal
    let (db, role) ← databaseRoleOf e.resource
    let user ← ensureDatabaseUser db login
    execute (.addDatabaseRoleMember db role user)
  | _ => Action.fail (notProvisionable e)
  return ⟨e, principal⟩

/-- Takes a grant's entitlement away from its principal. -/
def Connector.revoke (c : Connector) (g : Grant) : Action Unit := do
  let e := g.entitlement
  match e.resource.type with
  | .database =>
    let login ← userLogin g.principal
    let db ← databaseOf e.resource
    let (permission, state) ← Action.ofExcept (c.databasePermission e)
    let some user ← existingDatabaseUser db login | return ()
    execute (.revokeDatabasePermission db permission user (state == .withGrantOption))
  | .serverRole =>
    requireMembership e
    let login ← memberLogin g.principal
    let role ← serverRoleOf e.resource
    execute (.dropServerRoleMember role login.name)
  | .databaseRole =>
    requireMembership e
    let login ← memberLogin g.principal
    let (db, role) ← databaseRoleOf e.resource
    let some user ← existingDatabaseUser db login | return ()
    execute (.dropDatabaseRoleMember db role user)
  | _ => Action.fail (notProvisionable e)

end AccessReview
