import AccessReview.Resource
import AccessReview.Text.Split

/-!
# Role keys

A role key names a role within its scope: a server role by its principal id, a database
role by its database and its principal id. It is written as the bare id, or as
`<database>:<id>`; reading splits at the last colon, so a database name may itself hold
colons.

Role keys are ordered: every server key before every database key, server keys by id,
database keys by database name (UTF-8 byte order) and then by id.
-/

namespace AccessReview

/-- A role, scope-qualified. -/
inductive RoleKey where
  /-- A server role. -/
  | server (role : PrincipalId)
  /-- A role of a database. -/
  | database (db : DatabaseName) (role : PrincipalId)
  deriving DecidableEq, Repr, Hashable

/-- Reads a role key: a bare principal id is a server role; otherwise the text before the
last colon is a database name and the text after it a principal id. -/
def RoleKey.parse (s : String) : Except Error RoleKey :=
  match Text.splitLast ':' s.toList with
  | none => .server <$> PrincipalId.parse s
  | some (db, role) => do
    let d ← DatabaseName.parse (String.ofList db)
    let r ← PrincipalId.parse (String.ofList role)
    return .database d r

/-- The written form of a role key. -/
def RoleKey.display : RoleKey → String
  | .server r => r.display
  | .database d r => d.text ++ ":" ++ r.display

/-- The principal id of the role within its scope. -/
def RoleKey.roleId : RoleKey → PrincipalId
  | .server r => r
  | .database _ r => r

/-- The database of a database role. -/
def RoleKey.databaseName? : RoleKey → Option DatabaseName
  | .server _ => none
  | .database d _ => some d

/-- The resource of the role. -/
def RoleKey.resourceId : RoleKey → ResourceId
  | .server r => .serverRole r
  | .database d r => .databaseRole d r

/-- The role a role resource names. -/
def RoleKey.ofResource (r : ResourceId) : Except Error RoleKey :=
  match r.type with
  | .serverRole => .server <$> r.principalId
  | .databaseRole => do
    match ← RoleKey.parse r.resource with
    | .database d id => return .database d id
    | .server _ => throw (.resource (.bareDatabaseRole r.resource))
  | t => .error (.resource (.notRole t.name))

/-- The order of role keys: server keys first, then database keys by name and id. -/
def RoleKey.compare : RoleKey → RoleKey → Ordering
  | .server a, .server b => Ord.compare a b
  | .server _, .database _ _ => .lt
  | .database _ _, .server _ => .gt
  | .database d a, .database e b => (Ord.compare d e).then (Ord.compare a b)

instance : Ord RoleKey := ⟨RoleKey.compare⟩

/-- Inserts a key into a list ordered by `RoleKey.compare`, keeping it free of repeats. -/
def RoleKey.insertSorted (k : RoleKey) : List RoleKey → List RoleKey
  | [] => [k]
  | x :: xs =>
    match RoleKey.compare k x with
    | .lt => k :: x :: xs
    | .eq => x :: xs
    | .gt => x :: RoleKey.insertSorted k xs

end AccessReview
