import AccessReview.Error
import AccessReview.Text.WhiteSpace
import AccessReview.Text.Control

/-!
# Names

Database names and principal names (logins, users, roles) are checked the same way: the
input is trimmed, and what is left must be non-empty, at most 128 characters long and free
of control characters. The checks run in that order and the first that fails is reported.

Names a store holds can also be taken as they are, unchecked (`DatabaseName.mk`,
`PrincipalName.mk`); statements check them again when they are rendered.
-/

namespace AccessReview

/-- The checked form of a name: trimmed, non-empty, at most 128 characters, no control
character. -/
def checkName (kind : NameKind) (raw : String) : Except Error String :=
  let t := Text.trimList raw.toList
  if t.isEmpty then .error (.id (.name kind .empty))
  else if 128 < t.length then .error (.id (.name kind .tooLong))
  else if t.any Text.isControl then .error (.id (.name kind .control))
  else .ok (String.ofList t)

/-- The name of a database. -/
structure DatabaseName where
  /-- The name's text. -/
  text : String
  deriving DecidableEq, Repr, Hashable

/-- The name of a login, user or role. -/
structure PrincipalName where
  /-- The name's text. -/
  text : String
  deriving DecidableEq, Repr, Hashable

/-- Checks a database name. -/
def DatabaseName.parse (raw : String) : Except Error DatabaseName :=
  (checkName .database raw).map DatabaseName.mk

/-- Checks a principal name. -/
def PrincipalName.parse (raw : String) : Except Error PrincipalName :=
  (checkName .principal raw).map PrincipalName.mk

/-- Database names are ordered by their text, code point by code point, which is the
order of their UTF-8 bytes. -/
instance : Ord DatabaseName := ⟨fun a b => compare a.text b.text⟩

end AccessReview
