import AccessReview.PrincipalId
import AccessReview.Name

/-!
# Resources

A resource is named by its type and a resource string: `server`, `database` (the database
id), `schema`, `table`, `user` and `group` (a server principal id), `server-role` (a
principal id) and `database-role` (`<database>:<principal id>`). It is written
`<type>:<resource>`.
-/

namespace AccessReview

/-- The eight types of resources. -/
inductive ResourceType where
  | server
  | database
  | schema
  | table
  | user
  | group
  | serverRole
  | databaseRole
  deriving DecidableEq, Repr, Hashable

/-- The name of a resource type. -/
def ResourceType.name : ResourceType → String
  | .server => "server"
  | .database => "database"
  | .schema => "schema"
  | .table => "table"
  | .user => "user"
  | .group => "group"
  | .serverRole => "server-role"
  | .databaseRole => "database-role"

/-- Every resource type. -/
def ResourceType.all : List ResourceType :=
  [.server, .database, .schema, .table, .user, .group, .serverRole, .databaseRole]

/-- The resource type of a name; the name must match exactly. -/
def ResourceType.parse (s : String) : Except Error ResourceType :=
  match ResourceType.all.find? (·.name == s) with
  | some t => .ok t
  | none => .error (.resource (.unknownType s))

/-- A resource: its type and its resource string. -/
structure ResourceId where
  /-- What kind of resource it is. -/
  type : ResourceType
  /-- Which resource of that type. -/
  resource : String
  deriving DecidableEq, Repr, Hashable

/-- The written form `<type>:<resource>`. -/
def ResourceId.display (r : ResourceId) : String := r.type.name ++ ":" ++ r.resource

/-- The principal id the resource string holds. -/
def ResourceId.principalId (r : ResourceId) : Except Error PrincipalId :=
  PrincipalId.parse r.resource

/-- The user resource of a server principal. -/
def ResourceId.user (id : PrincipalId) : ResourceId := ⟨.user, id.display⟩

/-- The group resource of a server principal. -/
def ResourceId.group (id : PrincipalId) : ResourceId := ⟨.group, id.display⟩

/-- The resource of a server role. -/
def ResourceId.serverRole (id : PrincipalId) : ResourceId := ⟨.serverRole, id.display⟩

/-- The resource of a database role. -/
def ResourceId.databaseRole (db : DatabaseName) (id : PrincipalId) : ResourceId :=
  ⟨.databaseRole, db.text ++ ":" ++ id.display⟩

end AccessReview
