import AccessReview.Text.Quoted

/-!
# Errors

Every failure of the library is one `Error`, a cause with the data its message needs. The
wording lives in one place, `Error.message`. Offending input is shown as a quoted literal
(`AccessReview.Text.quote`) where the wording calls for it.

Unknown principal types and database principals without a server login are not errors:
the member or record concerned is skipped.
-/

namespace AccessReview

/-- The two kinds of checked names. -/
inductive NameKind where
  /-- A database name. -/
  | database
  /-- A login, user or role name. -/
  | principal
  deriving DecidableEq, Repr

/-- How a name kind is called in messages. -/
def NameKind.label : NameKind → String
  | .database => "database name"
  | .principal => "principal name"

/-- Why a name was refused, in the order the checks run. -/
inductive NameFault where
  /-- Nothing is left after trimming. -/
  | empty
  /-- More than 128 characters are left after trimming. -/
  | tooLong
  /-- A control character is left after trimming. -/
  | control
  deriving DecidableEq, Repr

/-- Why an id, a name or an identifier was refused. -/
inductive IdFault where
  /-- A name broke a rule of its kind. -/
  | name (kind : NameKind) (fault : NameFault)
  /-- A principal id is not a signed 64-bit integer; the text is the input as given. -/
  | notNumeric (raw : String)
  /-- An identifier cannot be bracket-quoted into a statement. -/
  | unquotable (identifier : String)
  deriving DecidableEq, Repr

/-- Why a resume token or a page token was refused. -/
inductive TokenFault where
  /-- The token is not URL-safe base64 without padding. -/
  | notBase64
  /-- The decoded token is not a well-formed envelope; the reader's message. -/
  | malformed (message : String)
  /-- The envelope has a version other than 1. -/
  | unsupportedVersion (version : Nat)
  /-- The envelope holds no pending role. -/
  | emptyFrontier
  /-- A page token is not a decimal offset; the text is the trimmed token. -/
  | pageOffset (raw : String)
  deriving DecidableEq, Repr

/-- Why a resource was refused for an operation. -/
inductive ResourceFault where
  /-- The resource type is none of the eight names. -/
  | unknownType (name : String)
  /-- A database role resource lacks its database part. -/
  | bareDatabaseRole (resource : String)
  /-- A resource of this type is not a role. -/
  | notRole (typeName : String)
  /-- Database permissions go to users only; the principal as written. -/
  | notUser (principal : String)
  /-- Role members are users or groups only; the principal as written. -/
  | notMember (principal : String)
  /-- A role key that names no database where a database role is needed. -/
  | notDatabaseRole (resource : String)
  deriving DecidableEq, Repr

/-- Why an entitlement was refused. -/
inductive EntitlementFault where
  /-- The text is not `type:resource:slug` with a non-empty resource and slug. -/
  | malformed (text : String)
  /-- A permission is not upper-case words separated by single spaces. -/
  | notPermissionName (permission : String)
  /-- A database entitlement's resource is not a numeric database id. -/
  | databaseIdNotNumeric (resource : String)
  /-- A database entitlement's code is not in the database vocabulary. -/
  | unknownDatabasePermission (entitlement : String)
  /-- A role entitlement other than membership. -/
  | notMembership (entitlement : String)
  /-- An entitlement on a resource type that cannot be provisioned. -/
  | notProvisionable (entitlement : String)
  deriving DecidableEq, Repr

/-- What a provisioning lookup looked for. -/
inductive Lookup where
  /-- A login by id. -/
  | login
  /-- A database by id. -/
  | database
  /-- A server role by id. -/
  | serverRole
  /-- A database role by database and id. -/
  | databaseRole
  deriving DecidableEq, Repr

/-- How a lookup is called in messages. -/
def Lookup.label : Lookup → String
  | .login => "login"
  | .database => "database"
  | .serverRole => "server role"
  | .databaseRole => "database role"

/-- Why the store failed a call. -/
inductive StoreFault where
  /-- A listing was asked for with a cursor it refuses. -/
  | cursor (fault : TokenFault)
  /-- A statement named a login that does not exist. -/
  | unknownLogin (name : String)
  deriving DecidableEq, Repr

/-- Every failure of the library. -/
inductive Error where
  /-- The store failed the call; nothing was changed by it. -/
  | store (fault : StoreFault)
  /-- A resume token was refused. -/
  | token (fault : TokenFault)
  /-- An id, name or identifier was refused. -/
  | id (fault : IdFault)
  /-- A resource was refused. -/
  | resource (fault : ResourceFault)
  /-- An entitlement was refused. -/
  | entitlement (fault : EntitlementFault)
  /-- A provisioning lookup found nothing. -/
  | notFound (what : Lookup) (key : String)
  /-- A traversal tracks more distinct roles than allowed. -/
  | roleLimit (root : String) (maxRoles : Nat)
  deriving DecidableEq, Repr

/-- The wording of a refused id. -/
def IdFault.message : IdFault → String
  | .name k .empty => k.label ++ " must not be empty"
  | .name k .tooLong => k.label ++ " length must be <= 128"
  | .name k .control => k.label ++ " contains invalid characters"
  | .notNumeric raw => "principal id must be numeric: " ++ Text.quote raw
  | .unquotable i => "identifier cannot be quoted: " ++ Text.quote i

/-- The wording of a refused token. -/
def TokenFault.message : TokenFault → String
  | .notBase64 => "token is not url-safe base64"
  | .malformed m => "malformed token: " ++ m
  | .unsupportedVersion v => "unsupported token version " ++ toString v
  | .emptyFrontier => "token frontier must not be empty"
  | .pageOffset raw => "page token must be an offset: " ++ Text.quote raw

/-- The wording of a refused resource. -/
def ResourceFault.message : ResourceFault → String
  | .unknownType name => "unknown resource type: " ++ name
  | .bareDatabaseRole r => "database role id must be <database>:<id>: " ++ r
  | .notRole t => t ++ " is not a role resource"
  | .notUser p => "database permissions can only be granted to users, got " ++ p
  | .notMember p => "role members must be users or groups, got " ++ p
  | .notDatabaseRole r => "not a database role: " ++ r

/-- The wording of a refused entitlement. -/
def EntitlementFault.message : EntitlementFault → String
  | .malformed t => "malformed entitlement id: " ++ t
  | .notPermissionName p => "not a permission name: " ++ Text.quote p
  | .databaseIdNotNumeric r => "database id must be numeric: " ++ r
  | .unknownDatabasePermission e => "unknown database permission: " ++ e
  | .notMembership e => "role entitlements must be member: " ++ e
  | .notProvisionable e => "entitlement cannot be provisioned: " ++ e

/-- The wording of a store failure. -/
def StoreFault.message : StoreFault → String
  | .cursor f => "invalid resume token: " ++ f.message
  | .unknownLogin name => "login " ++ name ++ " does not exist"

/-- The message of an error. -/
def Error.message : Error → String
  | .store f => "store error: " ++ f.message
  | .token f => "invalid resume token: " ++ f.message
  | .id f => "invalid id: " ++ f.message
  | .resource f => "invalid resource: " ++ f.message
  | .entitlement f => "invalid entitlement: " ++ f.message
  | .notFound w key => w.label ++ " not found: " ++ key
  | .roleLimit root n => "role traversal from " ++ root ++ " exceeds " ++ toString n ++
      " distinct roles"

end AccessReview
