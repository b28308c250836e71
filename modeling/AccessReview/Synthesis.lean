import AccessReview.Identity
import AccessReview.Vocabulary

/-!
# Grants from permission rows

The grants on a securable come from its aggregated permission rows, row by row and code by
code within a row. A row whose state tag is neither `G` nor `W` gives nothing, and so does
a row none of whose codes the vocabulary knows; only the other rows resolve their holder
(`AccessReview.resolve`), so no lookup is spent on a row that gives nothing. A holder
without a resource (no server login, or of no known kind) gives nothing.
-/

namespace AccessReview

/-- The grants one row gives on a resource, resolving its holder when it has a slug. -/
def rowGrants (scope : PermissionScope) (resource : ResourceId) (v : Vocabulary)
    (row : PermissionRow) : Action (List Grant) := do
  let some state := PermissionState.ofTag row.state | return []
  let slugs := decodeEntitlements state row.permissions v
  if slugs.isEmpty then return []
  let category := PrincipalCategory.ofTag row.principalType scope.principalScope
  let identity ← resolve row.principalId category scope.databaseName?
  match identity.resource? with
  | none => return []
  | some holder => return slugs.map fun slug => ⟨⟨resource, slug⟩, holder⟩

/-- The grants rows give on a resource, in row order and then code order. -/
def synthesize (scope : PermissionScope) (resource : ResourceId) (v : Vocabulary) :
    List PermissionRow → Action (List Grant)
  | [] => return []
  | row :: rest => do
    let first ← rowGrants scope resource v row
    return first ++ (← synthesize scope resource v rest)

end AccessReview
