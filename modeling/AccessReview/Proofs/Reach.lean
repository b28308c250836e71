import AccessReview.Proofs.PageStep

/-! # The roles a traversal reaches

    A member row of a role names a role when its type tag reads as a role at the parent's
    scope: a server role's such members are server roles, a database role's are roles of the
    same database (`childRole`). The roles reachable from a root are those joined to it by a
    chain of such rows (`Reaches`); they are finitely many, all among the root and the roles
    the catalog's rows name (`reach`).

    The rest of the file names what the traversal theorems count over the reachable roles:
    the grants of a role's members (`memberGrants`), the pages its listing takes
    (`pagesFor`), and the rows of other reachable roles that name it (`roleMentions`). The
    main statement is `reach_subset_of_closed`: a set of reachable roles that holds the
    root and every role its members name is all of them.
-/

namespace AccessReview

/-! ## Roles named by member rows -/

/-- The role a member row of role `k` names, if its type tag reads as a role at `k`'s scope:
a server role's members are server roles, a database role's are roles of its database. -/
def childRole (k : RoleKey) (m : MemberRow) : Option RoleKey :=
  if PrincipalCategory.ofTag m.typeTag k.scope = .role then
    some (match k.databaseName? with
      | none => .server m.id
      | some db => .database db m.id)
  else none

/-- The roles the member rows of `k` name, in listing order. -/
def childRoles (st : Store) (k : RoleKey) : List RoleKey :=
  (st.members.listAt k).filterMap (childRole k)

/-- A member's identity is a role exactly when its row names that role. -/
theorem memberIdentity_eq_role {st : Store} {k c : RoleKey} {m : MemberRow} :
    memberIdentity st k m = .role c ↔ childRole k m = some c := by
  unfold memberIdentity identityIn childRole
  cases hc : PrincipalCategory.ofTag m.typeTag k.scope
  case role | unknown =>
    cases k.databaseName? <;> simp
  all_goals
    -- users and groups are principals, or unmapped, never roles
    cases k.databaseName? with
    | none => simp [PrincipalCategory.loginResource]
    | some db =>
      simp only [reduceCtorEq, if_false, reduceCtorEq]
      split
      · simp
      · simp only [ServerPrincipal.identity]
        split <;> simp

/-- A role named by a row of a valid role, with an id in range, is valid. -/
theorem childRole_valid {k c : RoleKey} {m : MemberRow} (h : childRole k m = some c)
    (hk : k.Valid) (hm : m.id.InRange) : c.Valid := by
  unfold childRole at h
  split at h
  · cases k with
    | server r =>
      simp only [RoleKey.databaseName?, Option.some.injEq] at h
      subst h
      exact hm
    | database d r =>
      simp only [RoleKey.databaseName?, Option.some.injEq] at h
      subst h
      exact ⟨hk.1, hm⟩
  · cases h

/-! ## Reachable roles -/

/-- The roles joined to `root` by a chain of member rows naming roles. -/
def Reaches (st : Store) (root : RoleKey) : RoleKey → Prop :=
  Relation.ReflTransGen (fun k c => c ∈ childRoles st k) root

/-- The root and every role some member row of the catalog names. -/
def candidates (st : Store) (root : RoleKey) : Finset RoleKey :=
  insert root (st.members.rows.flatMap fun kv => kv.2.filterMap (childRole kv.1)).toFinset

open Classical in
/-- The roles reachable from `root`. -/
noncomputable def reach (st : Store) (root : RoleKey) : Finset RoleKey :=
  (candidates st root).filter (Reaches st root)

/-- A list a table holds for a key is one of its rows. -/
theorem Table.mem_rows_of_valueIn {κ ν : Type} [DecidableEq κ] {k : κ} {v : ν} :
    ∀ {rows : List (κ × ν)}, Table.valueIn k rows = some v → (k, v) ∈ rows
  | [], h => by cases h
  | (k', v') :: rest, h => by
    unfold Table.valueIn at h
    split at h
    · next hk =>
      cases h
      rw [hk]
      exact List.mem_cons_self
    · exact List.mem_cons_of_mem _ (Table.mem_rows_of_valueIn h)

/-- Every role a member row names is a candidate. -/
theorem mem_candidates_of_child {st : Store} {root k c : RoleKey} (h : c ∈ childRoles st k) :
    c ∈ candidates st root := by
  unfold childRoles Table.listAt Table.find? at h
  cases hv : Table.valueIn k st.members.rows with
  | none => simp [hv] at h
  | some rows =>
    rw [hv, Option.getD_some] at h
    refine Finset.mem_insert_of_mem (List.mem_toFinset.mpr (List.mem_flatMap.mpr ?_))
    exact ⟨(k, rows), Table.mem_rows_of_valueIn hv, h⟩

@[simp] theorem mem_reach {st : Store} {root k : RoleKey} :
    k ∈ reach st root ↔ Reaches st root k := by
  classical
  unfold reach
  rw [Finset.mem_filter]
  refine ⟨And.right, fun h => ⟨?_, h⟩⟩
  cases h with
  | refl => exact Finset.mem_insert_self root _
  | tail _ hc => exact mem_candidates_of_child hc

theorem root_mem_reach (st : Store) (root : RoleKey) : root ∈ reach st root :=
  mem_reach.mpr Relation.ReflTransGen.refl

/-- There are no more reachable roles than the root and the member rows of the catalog. -/
theorem card_reach_le (st : Store) (root : RoleKey) :
    (reach st root).card ≤ 1 + (st.members.rows.flatMap (·.2)).length := by
  classical
  have hlen : (st.members.rows.flatMap fun kv => kv.2.filterMap (childRole kv.1)).length ≤
      (st.members.rows.flatMap (·.2)).length := by
    induction st.members.rows with
    | nil => exact le_refl 0
    | cons kv rest ih =>
      simp only [List.flatMap_cons, List.length_append]
      exact Nat.add_le_add (List.length_filterMap_le _ _) ih
  calc (reach st root).card
      ≤ (candidates st root).card := Finset.card_le_card (Finset.filter_subset _ _)
    _ ≤ (st.members.rows.flatMap fun kv => kv.2.filterMap (childRole kv.1)).toFinset.card + 1 :=
        Finset.card_insert_le _ _
    _ ≤ (st.members.rows.flatMap fun kv => kv.2.filterMap (childRole kv.1)).length + 1 :=
        Nat.add_le_add_right (List.toFinset_card_le _) 1
    _ ≤ 1 + (st.members.rows.flatMap (·.2)).length := by omega

/-- A role named by a row of a reachable role is reachable. -/
theorem child_mem_reach {st : Store} {root k c : RoleKey} (hk : k ∈ reach st root)
    (hc : c ∈ childRoles st k) : c ∈ reach st root :=
  mem_reach.mpr ((mem_reach.mp hk).tail hc)

/-- A set that holds the root and every role named by a row of one of its roles holds every
reachable role. -/
theorem reach_subset_of_closed {st : Store} {root : RoleKey} {V : Finset RoleKey}
    (hroot : root ∈ V) (hclosed : ∀ k ∈ V, ∀ c ∈ childRoles st k, c ∈ V) : reach st root ⊆ V := by
  intro k hk
  induction mem_reach.mp hk with
  | refl => exact hroot
  | tail hreach hc ih => exact hclosed _ (ih (mem_reach.mpr hreach)) _ hc

/-! ## What the traversal theorems count -/

/-- The grant of `root`'s membership that a member of `k` gives: the resource its identity,
read without the cache, names. -/
def memberGrant (st : Store) (root k : RoleKey) (m : MemberRow) : Option Grant :=
  (memberIdentity st k m).resource?.map (Grant.mk (.member root.resourceId))

/-- The grants of `root`'s membership that the members of `k` give, in listing order. -/
def memberGrants (st : Store) (root k : RoleKey) : List Grant :=
  (st.members.listAt k).filterMap (memberGrant st root k)

/-- The pages a listing of `n` rows takes at `limit` rows a page: one at least, even when it
is empty. -/
def pagesFor (limit n : Nat) : Nat := max 1 ((n + limit - 1) / limit)

/-- A listing takes one page at least. -/
theorem one_le_pagesFor (L n : Nat) : 1 ≤ pagesFor L n := le_max_left _ _

/-- The member rows of reachable roles other than `k` that name `k`. -/
noncomputable def roleMentions (st : Store) (root k : RoleKey) : Nat :=
  ∑ q ∈ (reach st root).erase k, (st.members.listAt q).countP fun m => childRole q m = some k

end AccessReview
