/-!
# Splitting at a separator

Texts such as `type:resource:slug` are split at the first or at the last occurrence of a
separator character, or at every occurrence; the separator itself belongs to no part.
-/

namespace AccessReview.Text

/-- Splits a character list at its first occurrence of `sep`. -/
def splitFirst (sep : Char) (cs : List Char) : Option (List Char × List Char) :=
  match cs.span (· != sep) with
  | (_, []) => none
  | (before, _ :: after) => some (before, after)

/-- Splits a character list at its last occurrence of `sep`. -/
def splitLast (sep : Char) (cs : List Char) : Option (List Char × List Char) :=
  match cs.reverse.span (· != sep) with
  | (_, []) => none
  | (after, _ :: before) => some (before.reverse, after.reverse)

/-- Splits a character list at every occurrence of `sep`. -/
def splitAll (sep : Char) : List Char → List (List Char)
  | [] => [[]]
  | c :: cs =>
    if c == sep then [] :: splitAll sep cs
    else match splitAll sep cs with
      | [] => [[c]]
      | first :: more => (c :: first) :: more

end AccessReview.Text
