import AccessReview.Walk
import AccessReview.Synthesis
import AccessReview.Text.WhiteSpace

/-!
# The connector

The connector answers the three questions of an access review over an inventory: who holds
a role's membership, flattened through nested roles one page per call; which grants the
permission rows of a securable give, one page per call; and what grants given rows give.
It is set up with the permission vocabularies, the visit policy of traversals, a bound on
the roles one traversal may track, and page sizes: a page-size hint of 0 asks for the
default size, and every other hint is capped at the largest size.
-/

namespace AccessReview

/-- The most distinct roles a traversal tracks unless set otherwise. -/
def defaultMaxRoles : Nat := 10000

/-- The settings of an access review. -/
structure Connector where
  /-- The permission vocabularies. -/
  catalog : Catalog
  /-- When traversed roles are marked as visited. -/
  policy : VisitPolicy
  /-- The most distinct roles one traversal may track. -/
  maxRoles : Nat
  /-- The page size of a hint of 0; between 1 and the largest size. -/
  defaultPageSize : Nat
  /-- The largest page size; at least 1. -/
  maxPageSize : Nat
  deriving Repr

/-- A connector; the largest page size is raised to 1 at least and the default page size is
brought between 1 and the largest. -/
def Connector.build (catalog : Catalog) (policy : VisitPolicy) (maxRoles defaultSize maxSize : Nat) :
    Connector :=
  let largest := max maxSize 1
  ⟨catalog, policy, maxRoles, min (max defaultSize 1) largest, largest⟩

/-- The page size asked of the store for a hint. -/
def Connector.pageSize (c : Connector) (hint : Nat) : Nat :=
  if hint == 0 then c.defaultPageSize else min hint c.maxPageSize

/-- One page of grants and the token of the next page; the empty token ends the listing. -/
structure GrantPage where
  /-- The grants of the page. -/
  grants : List Grant
  /-- The token to ask the next page with, empty after the last page. -/
  nextToken : String
  deriving DecidableEq, Repr

/-- Whether a page is the last one. -/
def GrantPage.isLast (p : GrantPage) : Bool := p.nextToken.isEmpty

/-- One page of the flattened membership grants of a role: `root` must be a server or
database role, and `token` the empty string on the first call and the previous page's next
token after it. A failed call leaves the caller's token the right one to resume from. -/
def Connector.roleGrants (c : Connector) (root : ResourceId) (token : String) (hint : Nat) :
    Action GrantPage := do
  let key ← Action.ofExcept (RoleKey.ofResource root)
  let state ← Action.ofExcept (TraversalToken.decode token)
  let (grants, state) ← walkStep c.policy c.maxRoles key state (c.pageSize hint)
  return ⟨grants, state.encode⟩

/-- The grants given rows give on a resource, read with the vocabulary of their scope. -/
def Connector.decodePermissions (c : Connector) (scope : PermissionScope) (resource : ResourceId)
    (rows : List PermissionRow) : Action (List Grant) :=
  synthesize scope resource (c.catalog.get scope.vocabularyScope) rows

/-- One page of the grants the stored rows of a securable give; `cursor` is the previous
page's next token, blank for the first page. -/
def Connector.permissionGrants (c : Connector) (scope : PermissionScope) (resource : ResourceId)
    (cursor : String) (hint : Nat) : Action GrantPage := do
  let cursor := Text.trim cursor
  let cursor := if cursor.isEmpty then none else some cursor
  let page ← Action.ofExcept ((← Action.store).listPermissions scope cursor (c.pageSize hint))
  let grants ← c.decodePermissions scope resource page.items
  return ⟨grants, page.next.getD ""⟩

end AccessReview
