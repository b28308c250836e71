import AccessReview.Table
import AccessReview.Pager
import AccessReview.Permission
import AccessReview.Statement
import AccessReview.RoleKey

/-!
# The catalog store

The store holds what the server's catalog would answer: the direct members of each role,
the server login behind each database principal, the aggregated permission rows of each
securable, and the names of databases, logins, server roles, database roles and database
users. Listings are paged by row offset (`AccessReview.pageOf`); a refused cursor is a store
failure. The store counts the member pages it serves and the database-principal lookups it
answers, and keeps a journal of the statements it executed, oldest first. Of the statements,
only `CREATE USER` changes the catalog: it adds the database user of the login it names.
-/

namespace AccessReview

/-- A direct member of a role, as the role's own scope lists it. -/
structure MemberRow where
  /-- The member's id in the role's scope. -/
  id : PrincipalId
  /-- The member's name. -/
  name : String
  /-- The member's raw type tag. -/
  typeTag : String
  deriving DecidableEq, Repr

/-- A login: its server principal id and name. -/
structure Login where
  /-- The login's id. -/
  id : PrincipalId
  /-- The login's name. -/
  name : PrincipalName
  deriving DecidableEq, Repr

/-- One page of a listing and the cursor of the next page, if there is one. -/
structure Page (α : Type) where
  /-- The rows of the page. -/
  items : List α
  /-- The cursor of the following page; none when the listing is exhausted. -/
  next : Option String
  deriving DecidableEq, Repr

/-- The catalog and its journal. -/
structure Store where
  /-- The direct members of each role, in listing order. -/
  members : Table RoleKey (List MemberRow)
  /-- The server principal behind each database principal that has one. -/
  mappings : Table DatabasePrincipal ServerPrincipal
  /-- The permission rows of each securable, keyed by its exact scope. -/
  permissions : Table PermissionScope (List PermissionRow)
  /-- Database names by database id. -/
  databases : Table Int DatabaseName
  /-- Login names by id. -/
  logins : Table PrincipalId PrincipalName
  /-- Server role names by id. -/
  serverRoles : Table PrincipalId PrincipalName
  /-- Database role names by database and id. -/
  databaseRoles : Table DatabasePrincipal PrincipalName
  /-- The database user of each login in each database. -/
  databaseUsers : Table (DatabaseName × PrincipalId) PrincipalName
  /-- The statements executed, oldest first. -/
  journal : List Statement
  /-- The number of member pages served. -/
  memberFetches : Nat
  /-- The number of database-principal lookups answered. -/
  mappingLookups : Nat
  deriving Repr

namespace Store

/-- The store with an empty catalog. -/
def empty : Store :=
  ⟨.empty, .empty, .empty, .empty, .empty, .empty, .empty, .empty, [], 0, 0⟩

/-- Appends a direct member to a role. -/
def addRoleMember (s : Store) (role : RoleKey) (m : MemberRow) : Store :=
  { s with members := s.members.append role m }

/-- Records the server principal behind a database principal. -/
def mapDatabasePrincipal (s : Store) (p : DatabasePrincipal) (server : ServerPrincipal) :
    Store :=
  { s with mappings := s.mappings.insert p server }

/-- Appends a permission row to a securable. -/
def addPermissionRow (s : Store) (scope : PermissionScope) (row : PermissionRow) : Store :=
  { s with permissions := s.permissions.append scope row }

/-- Names a database. -/
def addDatabase (s : Store) (id : Int) (name : DatabaseName) : Store :=
  { s with databases := s.databases.insert id name }

/-- Names a login. -/
def addLogin (s : Store) (id : PrincipalId) (name : PrincipalName) : Store :=
  { s with logins := s.logins.insert id name }

/-- Names a server role. -/
def addServerRole (s : Store) (id : PrincipalId) (name : PrincipalName) : Store :=
  { s with serverRoles := s.serverRoles.insert id name }

/-- Names a database role. -/
def addDatabaseRole (s : Store) (role : DatabasePrincipal) (name : PrincipalName) : Store :=
  { s with databaseRoles := s.databaseRoles.insert role name }

/-- Records the database user of a login. -/
def addDatabaseUser (s : Store) (db : DatabaseName) (login : PrincipalId)
    (user : PrincipalName) : Store :=
  { s with databaseUsers := s.databaseUsers.insert (db, login) user }

/-- One page of rows, with the store's refusal of a cursor. -/
def listing {α : Type} (rows : List α) (cursor : Option String) (size : Nat) : Except Error (Page α) :=
  match pageOf rows cursor size with
  | .ok (items, next) => .ok ⟨items, next⟩
  | .error f => .error (.store (.cursor f))

/-- One page of a role's direct members; the page is counted even when the cursor is
refused. -/
def listRoleMembers (s : Store) (role : RoleKey) (cursor : Option String) (size : Nat) :
    Except Error (Page MemberRow) × Store :=
  (listing (s.members.listAt role) cursor size, { s with memberFetches := s.memberFetches + 1 })

/-- The server principal behind a database principal; the lookup is counted. -/
def serverPrincipalFor (s : Store) (p : DatabasePrincipal) : Option ServerPrincipal × Store :=
  (s.mappings.find? p, { s with mappingLookups := s.mappingLookups + 1 })

/-- One page of a securable's permission rows. -/
def listPermissions (s : Store) (scope : PermissionScope) (cursor : Option String)
    (size : Nat) : Except Error (Page PermissionRow) :=
  listing (s.permissions.listAt scope) cursor size

/-- The login with an id. -/
def login? (s : Store) (id : PrincipalId) : Option Login :=
  (s.logins.find? id).map (⟨id, ·⟩)

/-- The id of the first login with a name. -/
def loginNamed? (s : Store) (name : PrincipalName) : Option PrincipalId :=
  s.logins.keyWhere (· == name)

/-- The database user of a login. -/
def databaseUser? (s : Store) (db : DatabaseName) (login : PrincipalId) : Option PrincipalName :=
  s.databaseUsers.find? (db, login)

/-- Executes a statement: `CREATE USER` adds the database user of the login it names, which
must exist; every executed statement is journaled. -/
def execute (s : Store) (stmt : Statement) : Except Error Store := do
  let s ← match stmt with
    | .createDatabaseUser db user login =>
      match s.loginNamed? login with
      | none => .error (.store (.unknownLogin login.text))
      | some id => pure (s.addDatabaseUser db id user)
    | _ => pure s
  return { s with journal := s.journal ++ [stmt] }

end Store

end AccessReview
