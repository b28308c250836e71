import AccessReview.Name
import AccessReview.Text.Control
import AccessReview.Text.Split

/-!
# Statements

Provisioning issues T-SQL statements. Identifiers are spliced in bracket-quoted, so every
identifier is checked again when a statement is rendered: it must be non-empty and free of
control characters and of `[`, `]`, `"`, `'` and `;`. A permission name must be upper-case
ASCII words separated by single spaces. Statements on a database are prefixed by
`USE [<database>]; `.

Rendering checks the parts in the order they appear in the statement's body, and the
database of the `USE` prefix last; the first refusal is reported.
-/

namespace AccessReview

/-- A statement provisioning access. -/
inductive Statement where
  /-- Adds a login to a server role. -/
  | addServerRoleMember (role login : PrincipalName)
  /-- Removes a login from a server role. -/
  | dropServerRoleMember (role login : PrincipalName)
  /-- Adds a database user to a database role. -/
  | addDatabaseRoleMember (db : DatabaseName) (role user : PrincipalName)
  /-- Removes a database user from a database role. -/
  | dropDatabaseRoleMember (db : DatabaseName) (role user : PrincipalName)
  /-- Creates the database user of a login. -/
  | createDatabaseUser (db : DatabaseName) (user login : PrincipalName)
  /-- Grants a database permission, optionally with the grant option. -/
  | grantDatabasePermission (db : DatabaseName) (permission : String) (user : PrincipalName)
      (withGrantOption : Bool)
  /-- Revokes a database permission, or only its grant option (cascading). -/
  | revokeDatabasePermission (db : DatabaseName) (permission : String) (user : PrincipalName)
      (grantOptionOnly : Bool)
  deriving DecidableEq, Repr

/-- The database a statement runs in. -/
def Statement.database? : Statement → Option DatabaseName
  | .addServerRoleMember _ _ | .dropServerRoleMember _ _ => none
  | .addDatabaseRoleMember d _ _ | .dropDatabaseRoleMember d _ _
  | .createDatabaseUser d _ _ | .grantDatabasePermission d _ _ _
  | .revokeDatabasePermission d _ _ _ => some d

/-- Whether a statement takes access away. -/
def Statement.isDestructive : Statement → Bool
  | .dropServerRoleMember _ _ | .dropDatabaseRoleMember _ _ _
  | .revokeDatabasePermission _ _ _ _ => true
  | _ => false

/-- Characters an identifier may not hold. -/
def forbiddenInIdentifier (c : Char) : Bool :=
  c == '[' || c == ']' || c == '"' || c == '\'' || c == ';'

/-- An identifier in brackets, or the refusal when it cannot be quoted. -/
def quoteIdentifier (s : String) : Except Error String :=
  if s.isEmpty || s.toList.any (fun c => Text.isControl c || forbiddenInIdentifier c) then
    .error (.id (.unquotable s))
  else .ok ("[" ++ s ++ "]")

/-- Whether a character is an ASCII upper-case letter. -/
def isAsciiUpper (c : Char) : Bool := 'A' ≤ c && c ≤ 'Z'

/-- A permission name, or the refusal when it is not upper-case words separated by single
spaces. -/
def permissionKeyword (p : String) : Except Error String :=
  let words := Text.splitAll ' ' p.toList
  if !p.isEmpty && words.all (fun w => !w.isEmpty && w.all isAsciiUpper) then .ok p
  else .error (.entitlement (.notPermissionName p))

/-- The body of a statement, without the `USE` prefix. -/
def Statement.body : Statement → Except Error String
  | .addServerRoleMember role login => do
    return "ALTER SERVER ROLE " ++ (← quoteIdentifier role.text) ++ " ADD MEMBER " ++
      (← quoteIdentifier login.text) ++ ";"
  | .dropServerRoleMember role login => do
    return "ALTER SERVER ROLE " ++ (← quoteIdentifier role.text) ++ " DROP MEMBER " ++
      (← quoteIdentifier login.text) ++ ";"
  | .addDatabaseRoleMember _ role user => do
    return "ALTER ROLE " ++ (← quoteIdentifier role.text) ++ " ADD MEMBER " ++
      (← quoteIdentifier user.text) ++ ";"
  | .dropDatabaseRoleMember _ role user => do
    return "ALTER ROLE " ++ (← quoteIdentifier role.text) ++ " DROP MEMBER " ++
      (← quoteIdentifier user.text) ++ ";"
  | .createDatabaseUser _ user login => do
    return "CREATE USER " ++ (← quoteIdentifier user.text) ++ " FOR LOGIN " ++
      (← quoteIdentifier login.text) ++ ";"
  | .grantDatabasePermission db permission user withOption => do
    let p ← permissionKeyword permission
    let d ← quoteIdentifier db.text
    let u ← quoteIdentifier user.text
    return "GRANT " ++ p ++ " ON DATABASE::" ++ d ++ " TO " ++ u ++
      (if withOption then " WITH GRANT OPTION" else "") ++ ";"
  | .revokeDatabasePermission db permission user optionOnly => do
    let p ← permissionKeyword permission
    let d ← quoteIdentifier db.text
    let u ← quoteIdentifier user.text
    if optionOnly then
      return "REVOKE GRANT OPTION FOR " ++ p ++ " ON DATABASE::" ++ d ++ " FROM " ++ u ++
        " CASCADE;"
    else return "REVOKE " ++ p ++ " ON DATABASE::" ++ d ++ " FROM " ++ u ++ ";"

/-- The T-SQL text of a statement. -/
def Statement.render (s : Statement) : Except Error String := do
  let body ← s.body
  match s.database? with
  | some db => return "USE " ++ (← quoteIdentifier db.text) ++ "; " ++ body
  | none => return body

end AccessReview
