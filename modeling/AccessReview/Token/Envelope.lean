import AccessReview.Json.Skip
import AccessReview.RoleKey

/-!
# The token envelope

A resume token carries a JSON envelope `{"v":1,"frontier":[...],"visited":[...]}`. Each
frontier entry is `{"kind":"role","role":"<role key>","cursor":<string or null>}`; the visited
list holds role keys. The envelope is read by its schema, byte by byte, with these rules:

* A record (the envelope or an entry) is an object with its fields in any order, unknown
  fields skipped and a field named twice refused; or an array of its fields in order. A
  missing `cursor` is null; any other missing field is refused.
* The version is an integer from 0 to 255; the kind is the string `"role"`, or the object
  `{"role":null}`; a role key is a string that reads as a role key; a cursor is a string or
  null.
* A fault found inside a record or array is placed where the cursor stands once the
  record's or array's closing bracket has been checked.

The visited keys form a set: read in any order and with repeats, they are kept in role-key
order, each once.
-/

namespace AccessReview

open Json

/-- A role still being expanded, with the position reached in its member listing (`none`
for the first page). -/
structure FrontierEntry where
  /-- The role whose members are listed. -/
  role : RoleKey
  /-- The listing's cursor. -/
  cursor : Option String
  deriving DecidableEq, Repr

/-- The decoded envelope. -/
structure Envelope where
  /-- The format version. -/
  version : Nat
  /-- Pending roles, bottom of the stack first. -/
  frontier : List FrontierEntry
  /-- Expanded roles, in role-key order, each once. -/
  visited : List RoleKey
  deriving DecidableEq, Repr

/-- Fails because the value ahead is not what `expected` describes: the value is read far
enough to name it, and the fault is placed after it. -/
def invalidHere (expected : String) : Reader α := do
  let b := (← peek).getD 0
  let found : Unexpected ←
    if b == 0x6E then do bump; expectBytes [0x75, 0x6C, 0x6C]; pure .null
    else if b == 0x74 then do bump; expectBytes [0x72, 0x75, 0x65]; pure (.bool true)
    else if b == 0x66 then do bump; expectBytes [0x61, 0x6C, 0x73, 0x65]; pure (.bool false)
    else if b == 0x2D then do bump; pure (← readNumber false).unexpected
    else if isDigit b then do pure (← readNumber true).unexpected
    else if b == 0x22 then do bump; pure (.str (← readStringBody))
    else if b == 0x5B then pure .seq
    else if b == 0x7B then pure .map
    else failAhead .expectedValue
  throw (← place ⟨.invalidType found expected, none⟩)

/-- Reads a string and hands it to `visit`, whose refusal is placed after the string. -/
def readStringWith (expected : String) (visit : String → Except Fault α) : Reader α :=
  placed do
    match ← skipBlank with
    | none => failAhead .eofInValue
    | some b =>
      if b == 0x22 then
        bump
        let s ← readStringBody
        match visit s with
        | .ok a => return a
        | .error f => refuse f
      else invalidHere expected

/-- Reads a string. -/
def readText : Reader String :=
  readStringWith "a string" .ok

/-- Reads a role key; a refusal of the key is placed by the enclosing record or array. -/
def readRoleKey : Reader RoleKey := do
  let s ← readText
  match RoleKey.parse s with
  | .ok k => return k
  | .error e => refuse (.refused e.message)

/-- Reads a cursor: a string or null. -/
def readCursor : Reader (Option String) := do
  match ← skipBlank with
  | some b =>
    if b == 0x6E then
      bump
      expectBytes [0x75, 0x6C, 0x6C]
      return none
    else some <$> readText
  | none => some <$> readText

/-- Takes a number as a version, which must fit in a byte. -/
def versionOfNumber : Number → Reader Nat
  | .unsigned n => if n ≤ 255 then return n else refuse (.invalidValue (.unsigned n) "u8")
  | .negative i => refuse (.invalidValue (.signed i) "u8")
  | .float x => refuse (.invalidType (.float x.toBits) "u8")

/-- Reads the version. -/
def readVersion : Reader Nat :=
  placed do
    match ← skipBlank with
    | none => failAhead .eofInValue
    | some b =>
      if b == 0x2D then
        bump
        versionOfNumber (← readNumber false)
      else if isDigit b then versionOfNumber (← readNumber true)
      else invalidHere "u8"

/-- Reads the name of the entry kind. -/
def readKindName : Reader Unit :=
  readStringWith "variant identifier" fun s =>
    if s == "role" then .ok () else .error (.unknownVariant s ["role"])

/-- Reads a colon between an object key and its value. -/
def objectColon : Reader Unit := do
  match ← skipBlank with
  | none => failAhead .eofInObject
  | some b => if b == 0x3A then bump else failAhead .expectedColon

/-- Reads `null`. -/
def readNull : Reader Unit :=
  placed do
    match ← skipBlank with
    | none => failAhead .eofInValue
    | some b =>
      if b == 0x6E then
        bump
        expectBytes [0x75, 0x6C, 0x6C]
      else invalidHere "unit"

/-- Reads a variant of an enumeration that carries no value: the string of its name, or an
object holding the name as its only key, with the value null. The name is read by `readName`;
in the object it stands as a key and so must be a string, and an object with no member at all
lacks the value it stands for. -/
def readUnitVariant (readName : Reader α) : Reader α := do
  match ← skipBlank with
  | none => failAhead .eofInValue
  | some b =>
    if b == 0x7B then
      bump
      match ← skipBlank with
      | none => failAhead .eofInObject
      | some k =>
        if k == 0x7D then failAhead .expectedValue
        else if k != 0x22 then failAhead .keyMustBeString
      let a ← readName
      objectColon
      readNull
      match ← skipBlank with
      | some c => if c == 0x7D then bump else fail .expectedValue
      | none => fail .eofInObject
      return a
    else if b == 0x22 then readName
    else failAhead .expectedValue

/-- Reads the entry kind: `"role"`, or `{"role":null}`. -/
def readKind : Reader Unit := readUnitVariant readKindName

/-- Whether another member follows in an object; `first` before the first member. -/
def hasNextKey (first : Bool) : Reader Bool := do
  match ← skipBlank with
  | none => failAhead .eofInObject
  | some b =>
    if b == 0x7D then return false
    else if b == 0x2C && !first then
      bump
      match ← skipBlank with
      | none => failAhead .eofInValue
      | some c =>
        if c == 0x22 then return true
        else if c == 0x7D then failAhead .trailingComma
        else failAhead .keyMustBeString
    else if first then
      if b == 0x22 then return true else failAhead .keyMustBeString
    else failAhead .expectedObjectCommaOrEnd

/-- The key of the next member of an object, if one follows. -/
def nextKey (first : Bool) : Reader (Option String) := do
  if ← hasNextKey first then
    bump
    return some (← readStringBody)
  else return none

/-- Whether another element follows in an array; `first` before the first element. -/
def hasNextElement (first : Bool) : Reader Bool := do
  match ← skipBlank with
  | none => failAhead .eofInList
  | some b =>
    if b == 0x5D then return false
    else if first then return true
    else if b == 0x2C then
      bump
      match ← skipBlank with
      | none => failAhead .eofInValue
      | some c => if c == 0x5D then failAhead .trailingComma else return true
    else failAhead .expectedListCommaOrEnd

/-- The next element of an array, if one follows. -/
def nextElement (first : Bool) (r : Reader α) : Reader (Option α) := do
  if ← hasNextElement first then return some (← r) else return none

/-- Checks the end of an array and takes its closing bracket. -/
def endSeq : Reader Unit := do
  match ← skipBlank with
  | none => failAhead .eofInList
  | some b =>
    if b == 0x5D then bump
    else if b == 0x2C then
      bump
      match ← skipBlank with
      | some c => if c == 0x5D then failAhead .trailingComma else failAhead .trailingCharacters
      | none => failAhead .trailingCharacters
    else failAhead .trailingCharacters

/-- Checks the end of an object and takes its closing brace. -/
def endMap : Reader Unit := do
  match ← skipBlank with
  | none => failAhead .eofInObject
  | some b =>
    if b == 0x7D then bump
    else if b == 0x2C then failAhead .trailingComma
    else failAhead .trailingCharacters

/-- Reads a record written as an array (`bySeq`) or as an object (`byMap`), checking its
closing bracket even when its fields fail. -/
def readRecord (expected : String) (bySeq byMap : Reader α) : Reader α :=
  placed do
    match ← skipBlank with
    | none => failAhead .eofInValue
    | some b =>
      if b == 0x5B then
        bump
        thenClose bySeq endSeq
      else if b == 0x7B then
        bump
        thenClose byMap endMap
      else invalidHere expected

/-- The elements of an array after its opening bracket; each element takes at least one
byte, so the bytes ahead bound their number. -/
def elementsWithin (r : Reader α) (first : Bool) : Nat → Reader (List α)
  | 0 => failAhead .eofInList
  | fuel + 1 => do
    match ← nextElement first r with
    | none => return []
    | some a => return a :: (← elementsWithin r false fuel)

/-- Reads an array of elements. -/
def readSeq (r : Reader α) : Reader (List α) :=
  placed do
    match ← skipBlank with
    | none => failAhead .eofInValue
    | some b =>
      if b == 0x5B then
        bump
        thenClose (do elementsWithin r true ((← get).rest.length + 1)) endSeq
      else invalidHere "a sequence"

/-- The arity message of an entry written as an array. -/
def entryArity : String := "struct FrontierEntry with 3 elements"

/-- An entry written as an array. -/
def entryBySeq : Reader FrontierEntry := do
  let some () ← nextElement true readKind | refuse (.invalidLength 0 entryArity)
  let some role ← nextElement false readRoleKey | refuse (.invalidLength 1 entryArity)
  let some cursor ← nextElement false readCursor | refuse (.invalidLength 2 entryArity)
  return ⟨role, cursor⟩

/-- The members of an entry written as an object, with the fields read so far. -/
def entryFieldsWithin (first : Bool) (kind : Option Unit) (role : Option RoleKey)
    (cursor : Option (Option String)) : Nat → Reader FrontierEntry
  | 0 => failAhead .eofInObject
  | fuel + 1 => do
    match ← nextKey first with
    | none =>
      let some () := kind | refuse (.missingField "kind")
      let some r := role | refuse (.missingField "role")
      return ⟨r, cursor.getD none⟩
    | some key =>
      if key == "kind" then
        if kind.isSome then refuse (.duplicateField "kind")
        objectColon
        readKind
        entryFieldsWithin false (some ()) role cursor fuel
      else if key == "role" then
        if role.isSome then refuse (.duplicateField "role")
        objectColon
        let r ← readRoleKey
        entryFieldsWithin false kind (some r) cursor fuel
      else if key == "cursor" then
        if cursor.isSome then refuse (.duplicateField "cursor")
        objectColon
        let c ← readCursor
        entryFieldsWithin false kind role (some c) fuel
      else
        objectColon
        skipValue
        entryFieldsWithin false kind role cursor fuel

/-- Reads a frontier entry. -/
def readEntry : Reader FrontierEntry :=
  readRecord "struct FrontierEntry" entryBySeq
    (do entryFieldsWithin true none none none ((← get).rest.length + 1))

/-- Reads the visited keys as a set. -/
def readVisited : Reader (List RoleKey) := do
  let keys ← readSeq readRoleKey
  return keys.foldl (fun s k => k.insertSorted s) []

/-- The arity message of an envelope written as an array. -/
def envelopeArity : String := "struct Envelope with 3 elements"

/-- An envelope written as an array. -/
def envelopeBySeq : Reader Envelope := do
  let some v ← nextElement true readVersion | refuse (.invalidLength 0 envelopeArity)
  let some f ← nextElement false (readSeq readEntry) | refuse (.invalidLength 1 envelopeArity)
  let some s ← nextElement false readVisited | refuse (.invalidLength 2 envelopeArity)
  return ⟨v, f, s⟩

/-- The members of an envelope written as an object, with the fields read so far. -/
def envelopeFieldsWithin (first : Bool) (version : Option Nat)
    (frontier : Option (List FrontierEntry)) (visited : Option (List RoleKey)) :
    Nat → Reader Envelope
  | 0 => failAhead .eofInObject
  | fuel + 1 => do
    match ← nextKey first with
    | none =>
      let some v := version | refuse (.missingField "v")
      let some f := frontier | refuse (.missingField "frontier")
      let some s := visited | refuse (.missingField "visited")
      return ⟨v, f, s⟩
    | some key =>
      if key == "v" then
        if version.isSome then refuse (.duplicateField "v")
        objectColon
        let v ← readVersion
        envelopeFieldsWithin false (some v) frontier visited fuel
      else if key == "frontier" then
        if frontier.isSome then refuse (.duplicateField "frontier")
        objectColon
        let f ← readSeq readEntry
        envelopeFieldsWithin false version (some f) visited fuel
      else if key == "visited" then
        if visited.isSome then refuse (.duplicateField "visited")
        objectColon
        let s ← readVisited
        envelopeFieldsWithin false version frontier (some s) fuel
      else
        objectColon
        skipValue
        envelopeFieldsWithin false version frontier visited fuel

/-- Reads an envelope and checks that nothing but white space follows it. -/
def readEnvelope : Reader Envelope := do
  let e ← readRecord "struct Envelope" envelopeBySeq
    (do envelopeFieldsWithin true none none none ((← get).rest.length + 1))
  match ← skipBlank with
  | some _ => failAhead .trailingCharacters
  | none => return e

/-- Reads an envelope from its bytes. -/
def Envelope.read (bytes : List UInt8) : Except ReadError Envelope :=
  (readEnvelope.run.run (Cursor.start bytes)).1

end AccessReview
