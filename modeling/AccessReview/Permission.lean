import AccessReview.Grant
import AccessReview.Principal
import AccessReview.Vocabulary

/-!
# Permission rows

Catalog queries return one row per principal and grant state, with the permission codes
aggregated into one comma-joined string. A row's state tag, trimmed, is `G` (granted) or
`W` (granted with the grant option); rows with any other state are ignored.

The codes are split at commas, each trimmed, and empty ones dropped. A code outside the
vocabulary is dropped; each remaining code becomes a slug, carrying the `-grant` suffix
when the row has the grant option and the scope models it (server and database).
-/

namespace AccessReview

/-- How a permission is held. -/
inductive PermissionState where
  /-- Granted. -/
  | granted
  /-- Granted with the grant option. -/
  | withGrantOption
  deriving DecidableEq, Repr

/-- The state a tag names, once trimmed. -/
def PermissionState.ofTag (tag : String) : Option PermissionState :=
  match String.ofList (Text.trimList tag.toList) with
  | "G" => some .granted
  | "W" => some .withGrantOption
  | _ => none

/-- The tag of a state. -/
def PermissionState.tag : PermissionState → String
  | .granted => "G"
  | .withGrantOption => "W"

/-- The slug of a code held in a state. -/
def permissionSlug (code : String) : PermissionState → String
  | .granted => code
  | .withGrantOption => code ++ withGrantSuffix

/-- The code and state a slug stands for: one trailing `-grant` marks the grant option. -/
def Entitlement.permissionParts (e : Entitlement) : String × PermissionState :=
  let s := e.slug.toList
  let suffix := withGrantSuffix.toList
  if suffix.isSuffixOf s then (String.ofList (s.take (s.length - suffix.length)), .withGrantOption)
  else (e.slug, .granted)

/-- The securable a set of permission rows is about. -/
inductive PermissionScope where
  /-- The server itself. -/
  | server
  /-- A database. -/
  | database (db : DatabaseName)
  /-- A schema of a database, by id. -/
  | schema (db : DatabaseName) (id : Int)
  /-- A table of a database, by object id. -/
  | table (db : DatabaseName) (id : Int)
  deriving DecidableEq, Repr, Hashable

/-- The vocabulary that decodes the scope's codes. -/
def PermissionScope.vocabularyScope : PermissionScope → VocabularyScope
  | .server => .server
  | .database _ => .database
  | .schema _ _ => .schema
  | .table _ _ => .table

/-- The database a scope lies in. -/
def PermissionScope.databaseName? : PermissionScope → Option DatabaseName
  | .server => none
  | .database d | .schema d _ | .table d _ => some d

/-- Where the scope's principals are listed. -/
def PermissionScope.principalScope : PermissionScope → Scope
  | .server => .server
  | _ => .database

/-- One aggregated row of permissions. -/
structure PermissionRow where
  /-- The holder's id in the scope's catalog. -/
  principalId : PrincipalId
  /-- The holder's name. -/
  principalName : String
  /-- The holder's type tag. -/
  principalType : String
  /-- The raw state tag. -/
  state : String
  /-- The comma-joined codes. -/
  permissions : String
  deriving DecidableEq, Repr

/-- The codes of a comma-joined string: split at commas, trimmed, empty ones dropped. -/
def splitCodes (codes : String) : List String :=
  ((Text.splitAll ',' codes.toList).map Text.trimList).filterMap fun cs =>
    if cs.isEmpty then none else some (String.ofList cs)

/-- The slugs of a row's codes in a vocabulary: codes outside it are dropped, and the grant
option is kept only where the vocabulary's scope models it. -/
def decodeEntitlements (state : PermissionState) (codes : String) (v : Vocabulary) :
    List String :=
  let held := if v.scope.supportsGrantOption then state else .granted
  ((splitCodes codes).filter v.contains).map (permissionSlug · held)

end AccessReview
