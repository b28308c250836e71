import AccessReview.Json.Number

/-!
# Skipping a value

A field that a record does not know is skipped: its value is read for form only, without
decoding strings or numbers. Inside a skipped array or object, a comma must be followed by
another element or member (a comma before the closing bracket is reported where the missing
element should start), and an object key must be a string followed by a colon; input that
ends where a key is due ends the object.

Every step of a skip takes at least one byte before it goes deeper or further, so the number
of bytes ahead bounds the depth and the length of the walk; `skipValue` hands that bound to
the walk as its fuel.
-/

namespace AccessReview.Json

mutual

/-- Skips one value. -/
def skipValueWithin : Nat → Reader Unit
  | 0 => failAhead .eofInValue
  | fuel + 1 => do
    match ← skipBlank with
    | none => failAhead .eofInValue
    | some b =>
      if b == 0x6E then bump; expectBytes [0x75, 0x6C, 0x6C]
      else if b == 0x74 then bump; expectBytes [0x72, 0x75, 0x65]
      else if b == 0x66 then bump; expectBytes [0x61, 0x6C, 0x73, 0x65]
      else if b == 0x2D then bump; skipNumber
      else if isDigit b then skipNumber
      else if b == 0x22 then bump; skipString
      else if b == 0x5B then
        bump
        match ← skipBlank with
        | none => failAhead .eofInList
        | some c =>
          if c == 0x5D then bump
          else
            skipValueWithin fuel
            skipElementsWithin fuel
      else if b == 0x7B then
        bump
        match ← skipBlank with
        | none => failAhead .eofInObject
        | some c =>
          if c == 0x7D then bump
          else
            skipMemberWithin fuel
            skipMembersWithin fuel
      else failAhead .expectedValue

/-- Skips the elements of an array after its first, and its closing bracket. -/
def skipElementsWithin : Nat → Reader Unit
  | 0 => failAhead .eofInList
  | fuel + 1 => do
    match ← skipBlank with
    | none => failAhead .eofInList
    | some c =>
      if c == 0x2C then
        bump
        skipValueWithin fuel
        skipElementsWithin fuel
      else if c == 0x5D then bump
      else failAhead .expectedListCommaOrEnd

/-- Skips one object member: its key, its colon and its value. -/
def skipMemberWithin : Nat → Reader Unit
  | 0 => failAhead .eofInObject
  | fuel + 1 => do
    match ← skipBlank with
    | none => failAhead .eofInObject
    | some k =>
      if k == 0x22 then
        bump
        skipString
        match ← skipBlank with
        | none => failAhead .eofInObject
        | some c =>
          if c == 0x3A then
            bump
            skipValueWithin fuel
          else failAhead .expectedColon
      else failAhead .keyMustBeString

/-- Skips the members of an object after its first, and its closing brace. -/
def skipMembersWithin : Nat → Reader Unit
  | 0 => failAhead .eofInObject
  | fuel + 1 => do
    match ← skipBlank with
    | none => failAhead .eofInObject
    | some c =>
      if c == 0x2C then
        bump
        skipMemberWithin fuel
        skipMembersWithin fuel
      else if c == 0x7D then bump
      else failAhead .expectedObjectCommaOrEnd

end

/-- Skips one value at the cursor. -/
def skipValue : Reader Unit := do
  skipValueWithin ((← get).rest.length + 1)

end AccessReview.Json
