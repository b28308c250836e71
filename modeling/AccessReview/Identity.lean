import AccessReview.Inventory

/-!
# Identities

A principal seen in a listing stands in a grant as a resource: a role as its scoped role
resource, a user or group at server scope as its login resource. A user or group listed
inside a database stands for the server login it is mapped to; the mapping is read through
the cache, and a miss asks the store (one counted lookup) and keeps the outcome, "no
login" included. A database principal without a login, and one mapped to a server
principal that is not a login, have no resource.
-/

namespace AccessReview

/-- Where a principal ends up in the grant model. -/
inductive Identity where
  /-- A login-backed user or group resource. -/
  | principal (r : ResourceId)
  /-- A role, qualified by its scope. -/
  | role (k : RoleKey)
  /-- A database user or group without a server login. -/
  | noServerPrincipal
  /-- A principal of no known kind. -/
  | unknown
  deriving DecidableEq, Repr

/-- The resource a grant names for an identity, if any. -/
def Identity.resource? : Identity → Option ResourceId
  | .principal r => some r
  | .role k => some k.resourceId
  | .noServerPrincipal | .unknown => none

/-- The identity a server principal gives: its login resource, or none of a known kind. -/
def ServerPrincipal.identity (p : ServerPrincipal) : Identity :=
  match p.category.loginResource p.id with
  | some r => .principal r
  | none => .unknown

/-- The mapping of a database principal: the cached outcome, or the store's answer, which
is then cached. -/
def mappingOf (p : DatabasePrincipal) : Action CachedMapping := do
  match ← Action.onCache (·.get p) with
  | some m => return m
  | none =>
    let m := CachedMapping.ofOption (← Action.onStore (·.serverPrincipalFor p))
    Action.onCache fun c => ((), c.set p m)
    return m

/-- The identity of principal `id` of a category, listed in a database or at server scope. -/
def resolve (id : PrincipalId) (category : PrincipalCategory) (db? : Option DatabaseName) :
    Action Identity :=
  match category, db? with
  | .unknown, _ => return .unknown
  | .role, none => return .role (.server id)
  | .role, some db => return .role (.database db id)
  | c, none => return ((c.loginResource id).map Identity.principal).getD .unknown
  | _, some db => do
    match (← mappingOf ⟨db, id⟩).toOption with
    | none => return .noServerPrincipal
    | some server => return server.identity

end AccessReview
