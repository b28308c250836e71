import AccessReview.Error
import AccessReview.Text.WhiteSpace
import AccessReview.Text.Integer

/-!
# Principal ids

A principal id is a signed 64-bit integer. It is read from text after trimming; a refusal
quotes the text as it was given, untrimmed.
-/

namespace AccessReview

/-- The id of a server or database principal. -/
structure PrincipalId where
  /-- The id's value, within the signed 64-bit range. -/
  val : Int
  deriving DecidableEq, Repr, Hashable

/-- Reads a principal id from text. -/
def PrincipalId.parse (raw : String) : Except Error PrincipalId :=
  match Text.parseI64 (Text.trimList raw.toList) with
  | some v => .ok ⟨v⟩
  | none => .error (.id (.notNumeric raw))

/-- The decimal text of a principal id. -/
def PrincipalId.display (p : PrincipalId) : String := toString p.val

/-- Principal ids are ordered by value. -/
instance : Ord PrincipalId := ⟨fun a b => compare a.val b.val⟩

end AccessReview
