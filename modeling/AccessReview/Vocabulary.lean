/-!
# Permission vocabularies

The catalog reports permissions as short type codes (`SL`, `ALDB`, ...). Each class of
securable has a closed set of codes, a vocabulary, mapping each code to its display name;
codes outside a scope's vocabulary are ignored when rows are decoded.

A vocabulary keeps its codes in code order (UTF-8 byte order), each code once: when a code
is given twice, the later name wins. The T-SQL name of a permission is its display name
upper-cased in ASCII. Server and database grants with the grant option are separate
entitlements, `<code>-grant`, displayed as `<name> (With Grant)`.
-/

namespace AccessReview

/-- The version of the built-in code tables. -/
def vocabularyVersion : Nat := 1

/-- The slug suffix of a grant that carries the grant option. -/
def withGrantSuffix : String := "-grant"

/-- A class of securables with its own vocabulary. -/
inductive VocabularyScope where
  | server
  | database
  | schema
  | table
  | login
  deriving DecidableEq, Repr

/-- Whether grants in this scope have a separate with-grant-option entitlement. -/
def VocabularyScope.supportsGrantOption : VocabularyScope → Bool
  | .server | .database => true
  | .schema | .table | .login => false

/-- A code table for one scope. -/
structure Vocabulary where
  /-- The scope it serves. -/
  scope : VocabularyScope
  /-- The table's version. -/
  version : Nat
  /-- `(code, display name)` pairs in code order, each code once. -/
  codes : List (String × String)
  deriving DecidableEq, Repr

/-- Inserts a pair into a table in code order, replacing the name of a code already in it. -/
def insertCode (entry : String × String) : List (String × String) → List (String × String)
  | [] => [entry]
  | x :: xs =>
    match compare entry.1 x.1 with
    | .lt => entry :: x :: xs
    | .eq => entry :: xs
    | .gt => x :: insertCode entry xs

/-- A vocabulary from `(code, display name)` pairs in any order. -/
def Vocabulary.ofEntries (scope : VocabularyScope) (version : Nat)
    (entries : List (String × String)) : Vocabulary :=
  ⟨scope, version, entries.foldl (fun t e => insertCode e t) []⟩

/-- The display name of a code. -/
def Vocabulary.displayName? (v : Vocabulary) (code : String) : Option String :=
  (v.codes.find? (·.1 == code)).map (·.2)

/-- Whether a code belongs to the vocabulary. -/
def Vocabulary.contains (v : Vocabulary) (code : String) : Bool :=
  v.codes.any (·.1 == code)

/-- The T-SQL permission name of a code: its display name upper-cased in ASCII. -/
def Vocabulary.permissionName? (v : Vocabulary) (code : String) : Option String :=
  (v.displayName? code).map String.toUpper

/-- The number of codes. -/
def Vocabulary.size (v : Vocabulary) : Nat := v.codes.length

/-- Every entitlement a resource of this scope exposes, as `(slug, display name)`: each
code, followed in the server and database scopes by its with-grant-option form. -/
def Vocabulary.entitlements (v : Vocabulary) : List (String × String) :=
  v.codes.flatMap fun (code, name) =>
    if v.scope.supportsGrantOption then
      [(code, name), (code ++ withGrantSuffix, name ++ " (With Grant)")]
    else [(code, name)]

/-- One vocabulary per scope. -/
structure Catalog where
  server : Vocabulary
  database : Vocabulary
  schema : Vocabulary
  table : Vocabulary
  login : Vocabulary
  deriving DecidableEq, Repr

/-- The vocabulary of a scope. -/
def Catalog.get (c : Catalog) : VocabularyScope → Vocabulary
  | .server => c.server
  | .database => c.database
  | .schema => c.schema
  | .table => c.table
  | .login => c.login

/-- A catalog of custom vocabularies, each installed under its own scope. -/
def Catalog.ofVocabularies (server database schema table login : Vocabulary) : Catalog :=
  ⟨{ server with scope := .server }, { database with scope := .database },
    { schema with scope := .schema }, { table with scope := .table },
    { login with scope := .login }⟩

/-- Server permissions. -/
def serverPermissions : List (String × String) := [
  ("AAES", "Alter Any Event Session"), ("ADBO", "Administer Bulk Operations"),
  ("ALAA", "Alter Any Server Audit"), ("ALAG", "Alter Any Availability Group"),
  ("ALCD", "Alter Any Credential"), ("ALCO", "Alter Any Connection"),
  ("ALDB", "Alter Any Database"), ("ALES", "Alter Any Event Notification"),
  ("ALHE", "Alter Any Endpoint"), ("ALLG", "Alter Any Login"),
  ("ALLS", "Alter Any Linked Server"), ("ALRS", "Alter Resources"),
  ("ALSR", "Alter Any Server Role"), ("ALSS", "Alter Server State"),
  ("ALST", "Alter Settings"), ("ALTR", "Alter Trace"),
  ("AUTH", "Authenticate Server"), ("CADB", "Connect Any Database"),
  ("CL", "Control Server"), ("COSQ", "Connect SQL"),
  ("CRAC", "Create Availability Group"), ("CRDB", "Create Any Database"),
  ("CRDE", "Create DDL Event Notification"), ("CRHE", "Create Endpoint"),
  ("CRSR", "Create Server Role"), ("CRTE", "Create Trace Event Notification"),
  ("IAL", "Impersonate Any Login"), ("SHDN", "Shutdown"),
  ("SUS", "Select All User Securables"), ("VW", "View Any Definition"),
  ("VWDB", "View Any Database"), ("VWSS", "View Server State"),
  ("XA", "External Access Assembly"), ("XU", "Unsafe Assembly")]

/-- Database permissions. -/
def databasePermissions : List (String × String) := [
  ("AADS", "Alter Any Database Event Session"), ("AAMK", "Alter Any Mask"),
  ("AEDS", "Alter Any External Data Source"), ("AEFF", "Alter Any External File Format"),
  ("AL", "Alter"), ("ALAK", "Alter Any Asymmetric Key"),
  ("ALAR", "Alter Any Application Role"), ("ALAS", "Alter Any Assembly"),
  ("ALCF", "Alter Any Certificate"), ("ALDS", "Alter Any Dataspace"),
  ("ALED", "Alter Any Database Event Notification"), ("ALFT", "Alter Any Fulltext Catalog"),
  ("ALMT", "Alter Any Message Type"), ("ALRL", "Alter Any Role"),
  ("ALRT", "Alter Any Route"), ("ALSB", "Alter Any Remote Service Binding"),
  ("ALSC", "Alter Any Contract"), ("ALSK", "Alter Any Symmetric Key"),
  ("ALSM", "Alter Any Schema"), ("ALSV", "Alter Any Service"),
  ("ALTG", "Alter Any Database DDL Trigger"), ("ALUS", "Alter Any User"),
  ("AUTH", "Authenticate"), ("BADB", "Backup Database"),
  ("BALO", "Backup Log"), ("CL", "Control"),
  ("CO", "Connect"), ("CORP", "Connect Replication"),
  ("CP", "Checkpoint"), ("CRAG", "Create Aggregate"),
  ("CRAK", "Create Asymmetric Key"), ("CRAS", "Create Assembly"),
  ("CRCF", "Create Certificate"), ("CRDB", "Create Database"),
  ("CRDF", "Create Default"), ("CRED", "Create Database DDL Event Notification"),
  ("CRFN", "Create Function"), ("CRFT", "Create Fulltext Catalog"),
  ("CRMT", "Create Message Type"), ("CRPR", "Create Procedure"),
  ("CRQU", "Create Queue"), ("CRRL", "Create Role"),
  ("CRRT", "Create Route"), ("CRRU", "Create Rule"),
  ("CRSB", "Create Remote Service Binding"), ("CRSC", "Create Contract"),
  ("CRSK", "Create Symmetric Key"), ("CRSM", "Create Schema"),
  ("CRSN", "Create Synonym"), ("CRSO", "Create Sequence"),
  ("CRSV", "Create Service"), ("CRTB", "Create Table"),
  ("CRTY", "Create Type"), ("CRVW", "Create View"),
  ("CRXS", "Create XML Schema Collection"), ("DL", "Delete"),
  ("EX", "Execute"), ("IN", "Insert"),
  ("RF", "References"), ("SL", "Select"),
  ("SPLN", "Showplan"), ("SUQN", "Subscribe Query Notifications"),
  ("TO", "Take Ownership"), ("UP", "Update"),
  ("VW", "View Definition"), ("VWCT", "View Change Tracking"),
  ("VWDS", "View Database State")]

/-- Schema permissions. -/
def schemaPermissions : List (String × String) := [
  ("AL", "Alter"), ("CL", "Control"), ("DL", "Delete"), ("EX", "Execute"),
  ("IN", "Insert"), ("RF", "References"), ("SL", "Select"), ("TO", "Take Ownership"),
  ("UP", "Update"), ("VW", "View Definition"), ("VWCT", "View Change Tracking")]

/-- Table permissions. -/
def tablePermissions : List (String × String) := [
  ("AL", "Alter"), ("CL", "Control"), ("DL", "Delete"), ("EX", "Execute"),
  ("IN", "Insert"), ("RC", "Receive"), ("RF", "References"), ("SL", "Select"),
  ("TO", "Take Ownership"), ("UP", "Update"), ("VW", "View Definition"),
  ("VWCT", "View Change Tracking")]

/-- Login permissions. -/
def loginPermissions : List (String × String) := [
  ("AL", "Alter"), ("CL", "Control"), ("IM", "Impersonate"), ("VW", "View Definition")]

/-- The built-in catalog, version 1. -/
def Catalog.builtin : Catalog :=
  ⟨.ofEntries .server vocabularyVersion serverPermissions,
    .ofEntries .database vocabularyVersion databasePermissions,
    .ofEntries .schema vocabularyVersion schemaPermissions,
    .ofEntries .table vocabularyVersion tablePermissions,
    .ofEntries .login vocabularyVersion loginPermissions⟩

end AccessReview
