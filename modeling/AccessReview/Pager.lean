import AccessReview.Error
import AccessReview.Text.WhiteSpace
import AccessReview.Text.Integer

/-!
# Offset paging

Flat listings are paged by row offset. A page token is the decimal offset of the page's
first row (no token, or a blank one, is offset 0). A page size of 0 means 50, and no page
holds more than 1000 rows. A listing fetches one row more than the page holds; when that
row exists, the page is cut to its size and the next token is the offset after it.
-/

namespace AccessReview

/-- The page size used when none is asked for. -/
def defaultPageSize : Nat := 50

/-- The largest page. -/
def maxPageSize : Nat := 1000

/-- The offset a page token names. -/
def pageOffset (token : Option String) : Except TokenFault Nat :=
  match token.map fun t => Text.trimList t.toList with
  | none | some [] => .ok 0
  | some raw =>
    match Text.parseU64 raw with
    | some n => .ok n
    | none => .error (.pageOffset (String.ofList raw))

/-- The number of rows a page of the asked size holds. -/
def pageLimit (size : Nat) : Nat :=
  if size == 0 then defaultPageSize else min size maxPageSize

/-- The offset and limit of a page request. -/
def pageBounds (token : Option String) (size : Nat) : Except TokenFault (Nat × Nat) := do
  return (← pageOffset token, pageLimit size)

/-- Cuts rows fetched with one row to spare down to a page, with the next page's token when
the spare row was there. -/
def finishPage (offset limit : Nat) (rows : List α) : List α × Option String :=
  if limit < rows.length then (rows.take limit, some (toString (offset + limit)))
  else (rows, none)

/-- One page of a listing. -/
def pageOf (rows : List α) (token : Option String) (size : Nat) :
    Except TokenFault (List α × Option String) := do
  let (offset, limit) ← pageBounds token size
  return finishPage offset limit ((rows.drop offset).take (limit + 1))

end AccessReview
