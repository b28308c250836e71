import AccessReview.Token
import AccessReview.Grant

/-!
# Grants as JSON

A grant is written as the compact object
`{"entitlement":"<type>:<resource>:<slug>","principal":{"resource_type":"<type>","resource":"<resource>"}}`:
the entitlement as the string of its written form, the principal as the record of its type's
name and its resource string.

A grant is read by the rules the token envelope is read by. Each record, the grant and its
principal, is an object with its fields in any order, unknown fields skipped and a field named
twice refused, or an array of its fields in order; every field is required. The entitlement is
a string that reads as an entitlement, its refusal carried as the record's fault; the resource
type is the string of a type's name, or an object holding that name as its only key, with the
value null; nothing but white space may follow the grant.
-/

namespace AccessReview

open Json

/-- The JSON of a resource: its type's name and its resource string. -/
def ResourceId.json (r : ResourceId) : String :=
  braced ("\"resource_type\":" ++ writeString r.type.name ++ ",\"resource\":" ++
    writeString r.resource)

/-- The JSON of a grant: the written form of its entitlement and the JSON of its principal. -/
def Grant.json (g : Grant) : String :=
  braced ("\"entitlement\":" ++ writeString g.entitlement.display ++ ",\"principal\":" ++
    g.principal.json)

/-- Reads the name of a resource type as a variant name. -/
def readTypeName : Reader ResourceType :=
  readStringWith "variant identifier" fun s =>
    match ResourceType.all.find? (·.name == s) with
    | some t => .ok t
    | none => .error (.unknownVariant s (ResourceType.all.map ResourceType.name))

/-- Reads a resource type. -/
def readResourceType : Reader ResourceType := readUnitVariant readTypeName

/-- The arity message of a resource written as an array. -/
def resourceArity : String := "struct ResourceId with 2 elements"

/-- A resource written as an array. -/
def resourceBySeq : Reader ResourceId := do
  let some t ← nextElement true readResourceType | refuse (.invalidLength 0 resourceArity)
  let some r ← nextElement false readText | refuse (.invalidLength 1 resourceArity)
  return ⟨t, r⟩

/-- The members of a resource written as an object, with the fields read so far. -/
def resourceFieldsWithin (first : Bool) (type : Option ResourceType) (resource : Option String) :
    Nat → Reader ResourceId
  | 0 => failAhead .eofInObject
  | fuel + 1 => do
    match ← nextKey first with
    | none =>
      let some t := type | refuse (.missingField "resource_type")
      let some r := resource | refuse (.missingField "resource")
      return ⟨t, r⟩
    | some key =>
      if key == "resource_type" then
        if type.isSome then refuse (.duplicateField "resource_type")
        objectColon
        let t ← readResourceType
        resourceFieldsWithin false (some t) resource fuel
      else if key == "resource" then
        if resource.isSome then refuse (.duplicateField "resource")
        objectColon
        let r ← readText
        resourceFieldsWithin false type (some r) fuel
      else
        objectColon
        skipValue
        resourceFieldsWithin false type resource fuel

/-- Reads a resource. -/
def readResourceId : Reader ResourceId :=
  readRecord "struct ResourceId" resourceBySeq
    (do resourceFieldsWithin true none none ((← get).rest.length + 1))

/-- Reads an entitlement from the string of its written form; a refusal of the text is placed
by the enclosing record or array. -/
def readEntitlement : Reader Entitlement := do
  let s ← readText
  match Entitlement.parse s with
  | .ok e => return e
  | .error err => refuse (.refused err.message)

/-- The arity message of a grant written as an array. -/
def grantArity : String := "struct Grant with 2 elements"

/-- A grant written as an array. -/
def grantBySeq : Reader Grant := do
  let some e ← nextElement true readEntitlement | refuse (.invalidLength 0 grantArity)
  let some p ← nextElement false readResourceId | refuse (.invalidLength 1 grantArity)
  return ⟨e, p⟩

/-- The members of a grant written as an object, with the fields read so far. -/
def grantFieldsWithin (first : Bool) (entitlement : Option Entitlement)
    (principal : Option ResourceId) : Nat → Reader Grant
  | 0 => failAhead .eofInObject
  | fuel + 1 => do
    match ← nextKey first with
    | none =>
      let some e := entitlement | refuse (.missingField "entitlement")
      let some p := principal | refuse (.missingField "principal")
      return ⟨e, p⟩
    | some key =>
      if key == "entitlement" then
        if entitlement.isSome then refuse (.duplicateField "entitlement")
        objectColon
        let e ← readEntitlement
        grantFieldsWithin false (some e) principal fuel
      else if key == "principal" then
        if principal.isSome then refuse (.duplicateField "principal")
        objectColon
        let p ← readResourceId
        grantFieldsWithin false entitlement (some p) fuel
      else
        objectColon
        skipValue
        grantFieldsWithin false entitlement principal fuel

/-- Reads a grant and checks that nothing but white space follows it. -/
def readGrantJson : Reader Grant := do
  let g ← readRecord "struct Grant" grantBySeq
    (do grantFieldsWithin true none none ((← get).rest.length + 1))
  match ← skipBlank with
  | some _ => failAhead .trailingCharacters
  | none => return g

/-- Reads a grant from its bytes. -/
def Grant.read (bytes : List UInt8) : Except ReadError Grant :=
  (readGrantJson.run.run (Cursor.start bytes)).1

end AccessReview
