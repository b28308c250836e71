import AccessReview.Resource
import AccessReview.Text.Split

/-!
# Entitlements and grants

An entitlement is something a resource grants: membership of a role (`member`) or a
permission code, optionally with the grant option (`<code>-grant`). It is written
`<type>:<resource>:<slug>`. Reading takes the type up to the first colon and the slug
after the last one, so the resource between them may hold colons; an empty resource or
slug is refused before the type is looked at.

A grant pairs an entitlement with the principal resource that holds it.
-/

namespace AccessReview

/-- The slug of role membership. -/
def memberSlug : String := "member"

/-- Something a resource grants. -/
structure Entitlement where
  /-- The resource that grants it. -/
  resource : ResourceId
  /-- What it grants. -/
  slug : String
  deriving DecidableEq, Repr, Hashable

/-- The written form `<type>:<resource>:<slug>`. -/
def Entitlement.display (e : Entitlement) : String := e.resource.display ++ ":" ++ e.slug

/-- Membership of a role resource. -/
def Entitlement.member (role : ResourceId) : Entitlement := ⟨role, memberSlug⟩

/-- Reads an entitlement. -/
def Entitlement.parse (s : String) : Except Error Entitlement :=
  let malformed : Error := .entitlement (.malformed s)
  match Text.splitFirst ':' s.toList with
  | none => .error malformed
  | some (type, rest) =>
    match Text.splitLast ':' rest with
    | none => .error malformed
    | some (resource, slug) =>
      if resource.isEmpty || slug.isEmpty then .error malformed
      else do
        let t ← ResourceType.parse (String.ofList type)
        return ⟨⟨t, String.ofList resource⟩, String.ofList slug⟩

/-- A principal holding an entitlement. -/
structure Grant where
  /-- What is held. -/
  entitlement : Entitlement
  /-- Who holds it. -/
  principal : ResourceId
  deriving DecidableEq, Repr, Hashable

end AccessReview
