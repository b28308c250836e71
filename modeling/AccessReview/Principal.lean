import AccessReview.Resource

/-!
# Principals

A principal listed as a role member or as a permission holder comes with a type tag from
the catalog. The tag, trimmed, gives its category:

* `R` is a role;
* `G` and `X` are groups (Windows and external groups);
* `S`, `U`, `C` and `E` are users (SQL, Windows, certificate and external logins or users);
* `K` (asymmetric-key principal) is a user at database scope only;
* every other tag is unknown.

A user or a group stands in grants as its login resource, `user:<id>` or `group:<id>`.
-/

namespace AccessReview

/-- Where a principal is listed: at server scope or inside a database. -/
inductive Scope where
  | server
  | database
  deriving DecidableEq, Repr

/-- What a principal is. -/
inductive PrincipalCategory where
  | user
  | group
  | role
  | unknown
  deriving DecidableEq, Repr, Hashable

/-- The name of a category. -/
def PrincipalCategory.name : PrincipalCategory → String
  | .user => "user"
  | .group => "group"
  | .role => "role"
  | .unknown => "unknown"

/-- The category a name names. -/
def PrincipalCategory.ofName? : String → Option PrincipalCategory
  | "user" => some .user
  | "group" => some .group
  | "role" => some .role
  | "unknown" => some .unknown
  | _ => none

/-- The category a type tag gives at a scope. -/
def PrincipalCategory.ofTag (tag : String) (scope : Scope) : PrincipalCategory :=
  match String.ofList (Text.trimList tag.toList) with
  | "R" => .role
  | "G" | "X" => .group
  | "S" | "U" | "C" | "E" => .user
  | "K" => if scope == .database then .user else .unknown
  | _ => .unknown

/-- The resource a user or a group stands as in grants. -/
def PrincipalCategory.loginResource (c : PrincipalCategory) (id : PrincipalId) :
    Option ResourceId :=
  match c with
  | .user => some (.user id)
  | .group => some (.group id)
  | .role | .unknown => none

/-- A server principal: its id and category. -/
structure ServerPrincipal where
  /-- The server principal id. -/
  id : PrincipalId
  /-- What it is. -/
  category : PrincipalCategory
  deriving DecidableEq, Repr, Hashable

/-- A principal listed inside a database: the database and its id there. -/
structure DatabasePrincipal where
  /-- The database it is listed in. -/
  db : DatabaseName
  /-- Its id there. -/
  principal : PrincipalId
  deriving DecidableEq, Repr, Hashable

end AccessReview
