/-!
# Integers written in decimal

An integer is written as an optional sign followed by one or more ASCII digits, with
nothing before or after. A signed 64-bit integer takes `+` or `-`; an unsigned one takes
only `+`. Leading zeros are allowed, and the value must lie in the type's range.
-/

namespace AccessReview.Text

/-- The value of a string of ASCII digits, if it has at least one and nothing else. -/
def digitsValue (cs : List Char) : Option Nat :=
  if cs.isEmpty || !cs.all Char.isDigit then none
  else some (cs.foldl (fun n c => 10 * n + (c.toNat - 0x30)) 0)

/-- A signed 64-bit integer in decimal. -/
def parseI64 (cs : List Char) : Option Int :=
  match cs with
  | '-' :: ds => (digitsValue ds).bind fun n => if n ≤ Nat.pow 2 63 then some (-(n : Int)) else none
  | '+' :: ds => (digitsValue ds).bind fun n => if n < Nat.pow 2 63 then some (n : Int) else none
  | ds => (digitsValue ds).bind fun n => if n < Nat.pow 2 63 then some (n : Int) else none

/-- An unsigned 64-bit integer in decimal. -/
def parseU64 (cs : List Char) : Option Nat :=
  match cs with
  | '+' :: ds => (digitsValue ds).bind fun n => if n < Nat.pow 2 64 then some n else none
  | ds => (digitsValue ds).bind fun n => if n < Nat.pow 2 64 then some n else none

end AccessReview.Text
