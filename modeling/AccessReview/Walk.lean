import AccessReview.Identity
import AccessReview.Token

/-!
# One step of a role traversal

A traversal of the members of a root role is resumed from its token one member page at a
time. A step takes the entry on top of the token's stack (the root itself when the token is
fresh), fetches one page of that role's direct members, and grants each member that has a
resource the root's `member` entitlement. Roles found among the members are queued to be
expanded in turn, unless they are the role being expanded, already expanded, or already
found in the page; under `onDiscovery` a role already queued is not queued again.

When to mark a role as expanded is the policy: `onCompletion` marks it once its last page
has been read, `onDiscovery` as soon as it is queued (the root when the traversal starts).
The roles found are pushed so that the first found is on top, and the expanded role, when
its listing goes on, is pushed above them with its new cursor. A step that leaves the token
tracking more roles than allowed fails.
-/

namespace AccessReview

/-- When a traversed role enters the visited set. -/
inductive VisitPolicy where
  /-- A role is marked once its last member page has been read. -/
  | onCompletion
  /-- A role is marked as soon as it is queued, so it is queued at most once. -/
  | onDiscovery
  deriving DecidableEq, Repr

/-- Where a role's members are listed. -/
def RoleKey.scope : RoleKey → Scope
  | .server _ => .server
  | .database _ _ => .database

/-- Whether a role found in the page of `expanding` is queued. -/
def shouldQueue (policy : VisitPolicy) (token : TraversalToken) (expanding : RoleKey)
    (found : List RoleKey) (k : RoleKey) : Bool :=
  k != expanding && !token.isVisited k && !found.contains k &&
    match policy with
    | .onCompletion => true
    | .onDiscovery => !token.isQueued k

/-- What a member page gives: grants in member order and the roles to queue, in the order
they were found. -/
structure Harvest where
  /-- The grants of the page. -/
  grants : List Grant
  /-- The roles to queue. -/
  found : List RoleKey
  deriving DecidableEq, Repr

/-- Adds the members of a page of `expanding` to a harvest, resolving each member. -/
def harvest (policy : VisitPolicy) (token : TraversalToken) (expanding : RoleKey)
    (entitlement : Entitlement) : List MemberRow → Harvest → Action Harvest
  | [], acc => return acc
  | m :: rest, acc => do
    let category := PrincipalCategory.ofTag m.typeTag expanding.scope
    let acc := match ← resolve m.id category expanding.databaseName? with
      | .principal r => { acc with grants := acc.grants ++ [⟨entitlement, r⟩] }
      | .role k =>
        { grants := acc.grants ++ [⟨entitlement, k.resourceId⟩]
          found := if shouldQueue policy token expanding acc.found k then acc.found ++ [k]
            else acc.found }
      | .noServerPrincipal | .unknown => acc
    harvest policy token expanding entitlement rest acc

/-- Queues roles found in a page, the first found on top. -/
def queueFound (policy : VisitPolicy) (found : List RoleKey) (token : TraversalToken) :
    TraversalToken :=
  found.foldr (fun k t => (mark t k).push ⟨k, none⟩) token
where
  /-- Marks a queued role under `onDiscovery`. -/
  mark (t : TraversalToken) (k : RoleKey) : TraversalToken :=
    match policy with
    | .onDiscovery => t.markVisited k
    | .onCompletion => t

/-- The token a traversal step starts from: a fresh token starts at the root. -/
def startFrom (policy : VisitPolicy) (root : RoleKey) (token : TraversalToken) :
    TraversalToken :=
  if token.isDone then
    let t := match policy with
      | .onDiscovery => token.markVisited root
      | .onCompletion => token
    t.push ⟨root, none⟩
  else token

/-- Advances the traversal rooted at `root` by one member page of `pageSize` rows: the
grants of the page and the token to resume from. -/
def walkStep (policy : VisitPolicy) (maxRoles : Nat) (root : RoleKey) (token : TraversalToken)
    (pageSize : Nat) : Action (List Grant × TraversalToken) := do
  let token := startFrom policy root token
  match token.pending with
  | [] => return ([], .fresh)
  | entry :: below =>
    let token : TraversalToken := { token with pending := below }
    let page ← Action.ofExcept
      (← Action.onStore (·.listRoleMembers entry.role entry.cursor pageSize))
    let got ← harvest policy token entry.role (.member root.resourceId) page.items ⟨[], []⟩
    let token := match page.next, policy with
      | none, .onCompletion => token.markVisited entry.role
      | _, _ => token
    let token := queueFound policy got.found token
    let token := match page.next with
      | some c => token.push { entry with cursor := some c }
      | none => token
    if maxRoles < token.trackedRoles then
      Action.fail (.roleLimit root.display maxRoles)
    return (got.grants, token)

end AccessReview
