import Mathlib
import AccessReview.Proofs.TraversalShape

/-! # Role keys and role resources read back

A role key is written as its id, or as `<database>:<id>`, and the resource of a role holds that
text under the type `server-role` or `database-role`. Reading a key splits at the last colon
and checks the database name again, trimming it; a name as checking leaves it passes again
unchanged, and an id in the signed 64-bit range reads back from its decimal text. So a key
built from a checked name and such an id reads back from its text and from its resource
(`RoleKey.text_and_resource_read_back`), whatever colons, quotes, brackets or inner blanks the
name holds.

The roles a traversal step grants membership to are keys of that kind: a member row names a
role of the expanding role's own scope, by the row's id and in the expanding role's database,
and every other member stands as a user or a group (`resolve_run_member`). So every role
resource a step hands out in a grant is the resource of a valid key (`walkStep_grants_roleValid`),
which a traversal can be asked to start from.
-/

namespace AccessReview

/-! ## Members resolved through any cache -/

/-- A login resource is a user's or a group's. -/
theorem PrincipalCategory.loginResource_type {c : PrincipalCategory} {id : PrincipalId}
    {r : ResourceId} (h : c.loginResource id = some r) : r.type = .user ∨ r.type = .group := by
  cases c with
  | user => cases h; exact .inl rfl
  | group => cases h; exact .inr rfl
  | role | unknown => cases h

/-- A server principal stands as its login resource, or as of no known kind. -/
theorem ServerPrincipal.identity_eq (p : ServerPrincipal) :
    p.identity = ((p.category.loginResource p.id).map Identity.principal).getD .unknown := by
  unfold ServerPrincipal.identity
  cases p.category.loginResource p.id <;> rfl

/-- Resolving a principal through any cache gives a user or group resource whenever it gives a
principal at all: roles stand as roles, and a mapping names a login or nothing. -/
theorem resolve_run_login (i : Inventory) (id : PrincipalId) (category : PrincipalCategory)
    (db? : Option DatabaseName) :
    ∃ ident i', (resolve id category db?).run i = (.ok ident, i') ∧
      ∀ r, ident = .principal r → r.type = .user ∨ r.type = .group := by
  -- the principal of a login resource, or of none
  have ofLogin : ∀ (c : PrincipalCategory) (p : PrincipalId) r,
      ((c.loginResource p).map Identity.principal).getD .unknown = .principal r →
        r.type = .user ∨ r.type = .group := by
    intro c p r h
    cases hl : c.loginResource p with
    | none => rw [hl] at h; cases h
    | some r' =>
      rw [hl] at h
      cases h
      exact PrincipalCategory.loginResource_type hl
  cases category
  case role | unknown => cases db? <;> exact ⟨_, i, rfl, fun r h => by cases h⟩
  all_goals
    cases db? with
    | none => exact ⟨_, i, rfl, ofLogin _ id⟩
    | some db =>
      obtain ⟨mp, i', hmap⟩ := mappingOf_run_ok ⟨db, id⟩ i
      dsimp only [resolve]
      rw [Action.run_bind, hmap]
      dsimp only
      cases mp.toOption with
      | none => exact ⟨_, i', rfl, fun r h => by cases h⟩
      | some server =>
        exact ⟨_, i', rfl, fun r h =>
          ofLogin server.category server.id r (by rwa [ServerPrincipal.identity_eq] at h)⟩

/-- A member of role `k`, resolved through any cache, names a role resource only as the role its
row names. -/
theorem resolve_run_member (i : Inventory) (k : RoleKey) (m : MemberRow) :
    ∃ ident i', (resolve m.id (PrincipalCategory.ofTag m.typeTag k.scope) k.databaseName?).run i =
      (.ok ident, i') ∧ ∀ r, ident.resource? = some r →
        r.type = .serverRole ∨ r.type = .databaseRole → ∃ c, childRole k m = some c ∧ r = c.resourceId := by
  obtain ⟨ident, i', hrun, hrole⟩ := resolve_run_role i k m
  obtain ⟨ident', i'', hrun', hlogin⟩ := resolve_run_login i m.id
    (PrincipalCategory.ofTag m.typeTag k.scope) k.databaseName?
  -- both describe the one outcome of the run
  obtain rfl : ident = ident' := by
    rw [hrun] at hrun'
    exact Except.ok.inj (Prod.mk.inj hrun').1
  refine ⟨ident, i', hrun, fun r hr htype => ?_⟩
  cases ident with
  | principal r' =>
    -- a principal is a user or a group, never a role
    obtain rfl : r' = r := Option.some.inj hr
    exfalso
    rcases hlogin r' rfl with hu | hu <;> rcases htype with ht | ht <;> rw [hu] at ht <;> cases ht
  | role c =>
    cases hr
    exact ⟨c, (hrole c).mp rfl, rfl⟩
  | noServerPrincipal | unknown => cases hr

/-! ## Role resources a traversal step hands out -/

/-- A grant whose principal, when it is a role resource, is the resource of a valid role key. -/
def Grant.RoleValid (g : Grant) : Prop :=
  g.principal.type = .serverRole ∨ g.principal.type = .databaseRole →
    ∃ c : RoleKey, c.Valid ∧ g.principal = c.resourceId

section Harvest

variable (policy : VisitPolicy) (token : TraversalToken) (expanding : RoleKey)
  (entitlement : Entitlement)

/-- Harvesting member rows of a valid role whose ids fit their type, through any cache, adds
only grants whose role resources are those of valid keys. -/
theorem harvest_run_roleValid (hk : expanding.Valid) (rows : List MemberRow)
    (hids : ∀ m ∈ rows, m.id.InRange) :
    ∀ (acc : Harvest) (i : Inventory), (∀ g ∈ acc.grants, g.RoleValid) →
      ∃ h i', (harvest policy token expanding entitlement rows acc).run i = (.ok h, i') ∧
        ∀ g ∈ h.grants, g.RoleValid := by
  induction rows with
  | nil => exact fun acc i hacc => ⟨acc, i, rfl, hacc⟩
  | cons m rest ih =>
    intro acc i hacc
    obtain ⟨ident, i1, hres, hrole⟩ := resolve_run_member i expanding m
    -- the grant the member adds, if any, names the role its row names
    have hadd : ∀ g ∈ (acc.add policy token expanding entitlement ident).grants, g.RoleValid := by
      intro g hg
      rw [Harvest.add_grants, List.mem_append] at hg
      rcases hg with hg | hg
      · exact hacc g hg
      · obtain ⟨r, hr, rfl⟩ : ∃ r, ident.resource? = some r ∧ Grant.mk entitlement r = g := by
          simpa using hg
        intro htype
        obtain ⟨c, hc, rfl⟩ := hrole r hr htype
        exact ⟨c, childRole_valid hc hk (hids m List.mem_cons_self), rfl⟩
    obtain ⟨h, i', hrun, hvalid⟩ := ih (fun m' hm' => hids m' (List.mem_cons_of_mem m hm')) _ i1 hadd
    refine ⟨h, i', ?_, hvalid⟩
    rw [harvest, Action.run_bind, hres]
    exact hrun

end Harvest

/-- A traversal step from a valid root and a token whose roles are valid keys, on any
inventory whose member ids fit their type, hands out only grants whose role resources are
those of valid keys. -/
theorem walkStep_grants_roleValid {policy : VisitPolicy} {maxRoles : Nat} {root : RoleKey}
    {token : TraversalToken} {size : Nat} {i : Inventory} (hroot : root.Valid)
    (htoken : ∀ e ∈ token.pending, e.role.Valid)
    (hids : ∀ k, ∀ m ∈ i.store.members.listAt k, m.id.InRange) {grants : List Grant}
    {next : TraversalToken}
    (h : ((walkStep policy maxRoles root token size).run i).1 = .ok (grants, next)) :
    ∀ g ∈ grants, g.RoleValid := by
  unfold walkStep at h
  rcases hp : (startFrom policy root token).pending with _ | ⟨entry, below⟩
  · exact absurd hp (startFrom_pending_ne_nil policy root token)
  -- the role expanded is the root, or the token's top role
  have hentry : entry.role.Valid := by
    cases hd : token.isDone
    · rw [startFrom_of_not_isDone policy root token hd] at hp
      exact htoken entry (by rw [hp]; exact List.mem_cons_self)
    · rw [(startFrom_of_isDone policy root token hd).1] at hp
      obtain ⟨rfl, -⟩ := List.cons.inj hp
      exact hroot
  simp only [hp] at h
  rw [Action.run_bind, Action.run_onStore] at h
  simp only [Store.listRoleMembers] at h
  rw [Action.run_bind, Action.run_ofExcept] at h
  rcases hl : Store.listing (i.store.members.listAt entry.role) entry.cursor size with _ | page
  · rw [hl] at h
    cases h
  rw [hl] at h
  simp only at h
  obtain ⟨got, i2, hrun, hvalid⟩ := harvest_run_roleValid policy
    ⟨below, (startFrom policy root token).visited⟩ entry.role (.member root.resourceId) hentry
    page.items (fun m hm => hids entry.role m (mem_of_listing hl hm)) ⟨[], []⟩ _
    (fun g hg => by cases hg)
  rw [Action.run_bind, hrun] at h
  dsimp only at h
  rw [Action.run_check] at h
  dsimp only at h
  rcases ite_eq_iff.mp h with ⟨-, h⟩ | ⟨-, h⟩
  · cases h
  · cases h
    exact hvalid

/-! ## Reading keys back -/

/-- Role keys read back from their text and from their resource: a server key of any id in the
signed 64-bit range, and a database key of such an id in any database name that checking returns.
So every role resource a traversal step hands out, from a valid root and a token of valid keys
over member ids that fit their type, is the resource of a valid key and reads back as that key:
a traversal can be started from it. -/
theorem RoleKey.text_and_resource_read_back {i : PrincipalId} (hi : i.InRange) {raw : String}
    {d : DatabaseName} (hd : DatabaseName.parse raw = .ok d) :
    (RoleKey.parse (RoleKey.server i).display = .ok (.server i) ∧
      RoleKey.ofResource (RoleKey.server i).resourceId = .ok (.server i)) ∧
    (RoleKey.parse (RoleKey.database d i).display = .ok (.database d i) ∧
      RoleKey.ofResource (RoleKey.database d i).resourceId = .ok (.database d i)) ∧
    ∀ (policy : VisitPolicy) (maxRoles : Nat) (root : RoleKey) (token : TraversalToken)
      (size : Nat) (inv : Inventory) (grants : List Grant) (next : TraversalToken),
      root.Valid → (∀ e ∈ token.pending, e.role.Valid) →
      (∀ k, ∀ m ∈ inv.store.members.listAt k, m.id.InRange) →
      ((walkStep policy maxRoles root token size).run inv).1 = .ok (grants, next) →
      ∀ g ∈ grants, g.principal.type = .serverRole ∨ g.principal.type = .databaseRole →
        ∃ c : RoleKey, c.Valid ∧ g.principal = c.resourceId ∧
          RoleKey.ofResource g.principal = .ok c := by
  have hserver : (RoleKey.server i).Valid := hi
  have hdatabase : (RoleKey.database d i).Valid := ⟨⟨raw, hd⟩, hi⟩
  refine ⟨⟨RoleKey.parse_display hserver, RoleKey.ofResource_resourceId hserver⟩,
    ⟨RoleKey.parse_display hdatabase, RoleKey.ofResource_resourceId hdatabase⟩, ?_⟩
  intro policy maxRoles root token size inv grants next hroot htoken hids h g hg htype
  obtain ⟨c, hc, hres⟩ := walkStep_grants_roleValid hroot htoken hids h g hg htype
  exact ⟨c, hc, hres, hres ▸ RoleKey.ofResource_resourceId hc⟩

/-- The smallest signed 64-bit id, and a database name given with blanks around it and a colon,
a space and brackets inside it. -/
theorem RoleKey.text_and_resource_read_back_padded_name :
    PrincipalId.InRange ⟨-9223372036854775808⟩ ∧
      DatabaseName.parse " sales:eu [1] " = .ok ⟨"sales:eu [1]"⟩ ∧
      (RoleKey.parse (RoleKey.server ⟨-9223372036854775808⟩).display =
          .ok (.server ⟨-9223372036854775808⟩) ∧
        RoleKey.ofResource (RoleKey.server ⟨-9223372036854775808⟩).resourceId =
          .ok (.server ⟨-9223372036854775808⟩)) ∧
      (RoleKey.parse (RoleKey.database ⟨"sales:eu [1]"⟩ ⟨-9223372036854775808⟩).display =
          .ok (.database ⟨"sales:eu [1]"⟩ ⟨-9223372036854775808⟩) ∧
        RoleKey.ofResource (RoleKey.database ⟨"sales:eu [1]"⟩ ⟨-9223372036854775808⟩).resourceId =
          .ok (.database ⟨"sales:eu [1]"⟩ ⟨-9223372036854775808⟩)) ∧
      ∀ (policy : VisitPolicy) (maxRoles : Nat) (root : RoleKey) (token : TraversalToken)
        (size : Nat) (inv : Inventory) (grants : List Grant) (next : TraversalToken),
        root.Valid → (∀ e ∈ token.pending, e.role.Valid) →
        (∀ k, ∀ m ∈ inv.store.members.listAt k, m.id.InRange) →
        ((walkStep policy maxRoles root token size).run inv).1 = .ok (grants, next) →
        ∀ g ∈ grants, g.principal.type = .serverRole ∨ g.principal.type = .databaseRole →
          ∃ c : RoleKey, c.Valid ∧ g.principal = c.resourceId ∧
            RoleKey.ofResource g.principal = .ok c := by
  have hi : PrincipalId.InRange ⟨-9223372036854775808⟩ := by decide
  have hd : DatabaseName.parse " sales:eu [1] " = .ok ⟨"sales:eu [1]"⟩ := by decide
  exact ⟨hi, hd, RoleKey.text_and_resource_read_back hi hd⟩

end AccessReview
