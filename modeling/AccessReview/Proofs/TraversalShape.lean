import Mathlib
import AccessReview.Proofs.Completion

/-! # The shape of every traversal token

A traversal is resumed from the token the call before handed back, so its tokens are those that
successful calls hand back from the empty token on (`HandedBack`), whatever page sizes the
calls ask for and on any inventory that serves the catalog's member lists, whatever its mapping
cache holds. This file shows what every such token looks like (`handedBack_shape`): only the
entry on top of its stack has a listing under way, and every role it holds is reachable from
the root. Under `onDiscovery` the root and every pending role are visited and no role is
pending twice; under `onCompletion` every entry whose role is visited already has each role
its rows name visited, or listed by an entry above it.

Which roles a call queues does not depend on the cache, since a member is a role exactly when
its row names one (`resolve_run_role`): a call on any inventory hands back the token of the
pure step `advance` (`walkStep_run_token`). The invariants are the ones the drains rest on
(`Traversal.DiscoveryInv`, `Traversal.CompletionInv`), carried over the token that finishes a
traversal (`Traversal.FinishedInv`) and over the call after it, which takes the root again.
-/

namespace AccessReview

/-! ## Calls on any cache -/

/-- A mapping is read through any cache without failing. -/
theorem mappingOf_run_ok (p : DatabasePrincipal) (i : Inventory) :
    ∃ m i', (mappingOf p).run i = (.ok m, i') := by
  unfold mappingOf
  rw [Action.run_bind, Action.run_onCache]
  rcases hc : i.cache.get p with ⟨_ | m, c⟩
  · -- a miss asks the store and keeps its answer
    dsimp only
    rw [Action.run_bind, Action.run_onStore]
    exact ⟨_, _, rfl⟩
  · exact ⟨m, _, rfl⟩

/-- Resolving a member of role `k`, through any cache, gives a role exactly when the member's
row names that role. -/
theorem resolve_run_role (i : Inventory) (k : RoleKey) (m : MemberRow) :
    ∃ ident i', (resolve m.id (PrincipalCategory.ofTag m.typeTag k.scope) k.databaseName?).run i =
      (.ok ident, i') ∧ ∀ c, ident = .role c ↔ childRole k m = some c := by
  unfold childRole
  cases hcat : PrincipalCategory.ofTag m.typeTag k.scope
  case role =>
    cases k.databaseName? <;> exact ⟨_, i, rfl, fun c => by simp⟩
  case unknown =>
    exact ⟨_, i, rfl, fun c => by simp⟩
  -- users and groups are principals, or unmapped, never roles
  all_goals
    cases hdb : k.databaseName? with
    | none =>
      refine ⟨_, i, rfl, fun c => ?_⟩
      simp [PrincipalCategory.loginResource]
    | some db =>
      obtain ⟨mp, i', hmap⟩ := mappingOf_run_ok ⟨db, m.id⟩ i
      dsimp only [resolve]
      rw [Action.run_bind, hmap]
      dsimp only
      cases mp.toOption with
      | none => exact ⟨_, i', rfl, fun c => by simp⟩
      | some server =>
        refine ⟨_, i', rfl, fun c => ?_⟩
        simp only [ServerPrincipal.identity, reduceCtorEq, if_false, iff_false]
        split <;> simp

section Found

variable (policy : VisitPolicy) (token : TraversalToken) (expanding : RoleKey)
  (entitlement : Entitlement)

/-- What a member adds to the roles queued depends only on the role it is, if any. -/
theorem Harvest.add_found_congr {acc acc' : Harvest} (hacc : acc.found = acc'.found)
    {id id' : Identity} (hid : ∀ c, id = .role c ↔ id' = .role c) :
    (acc.add policy token expanding entitlement id).found =
      (acc'.add policy token expanding entitlement id').found := by
  cases id with
  | role k =>
    obtain rfl : id' = .role k := (hid k).mp rfl
    simp only [Harvest.add, hacc]
  | _ =>
    have hnot : ∀ c, id' ≠ .role c := fun c h => by simpa using (hid c).mpr h
    cases id' with
    | role c => exact absurd rfl (hnot c)
    | _ => exact hacc

/-- Harvesting a page through any cache queues the roles that gathering it from a catalog's
mappings queues. -/
theorem harvest_run_found (st : Store) (rows : List MemberRow) :
    ∀ (acc acc' : Harvest) (i : Inventory), acc.found = acc'.found →
      ∃ h i', (harvest policy token expanding entitlement rows acc).run i = (.ok h, i') ∧
        h.found = (gather st policy token expanding entitlement rows acc').found := by
  induction rows with
  | nil => exact fun acc acc' i hacc => ⟨acc, i, rfl, hacc⟩
  | cons m rest ih =>
    intro acc acc' i hacc
    obtain ⟨ident, i1, hres, hrole⟩ := resolve_run_role i expanding m
    -- the member is a role for the cache exactly when it is one for the catalog
    have hid : ∀ c, ident = .role c ↔ memberIdentity st expanding m = .role c :=
      fun c => (hrole c).trans memberIdentity_eq_role.symm
    obtain ⟨h, i', hrun, hfound⟩ := ih _ _ i1 (Harvest.add_found_congr policy token expanding
      entitlement hacc hid)
    refine ⟨h, i', ?_, hfound⟩
    rw [harvest, Action.run_bind, hres]
    exact hrun

end Found

/-- A call of `walkStep` on an inventory whose store holds the member lists of `st`, whatever
its cache and mappings, hands back the token the pure step `advance` builds over `st`, or
fails as it does. -/
theorem walkStep_run_token {st : Store} {i : Inventory} (hmem : i.store.members = st.members)
    (policy : VisitPolicy) (maxRoles : Nat) (root : RoleKey) (token : TraversalToken)
    (pageSize : Nat) :
    ((walkStep policy maxRoles root token pageSize).run i).1.map Prod.snd =
      (advance st policy maxRoles root token pageSize).map Prod.snd := by
  unfold walkStep advance
  rcases hp : (startFrom policy root token).pending with _ | ⟨entry, below⟩
  · exact absurd hp (startFrom_pending_ne_nil policy root token)
  simp only [hp]
  rw [Action.run_bind, Action.run_onStore]
  simp only [Store.listRoleMembers, hmem]
  rw [Action.run_bind, Action.run_ofExcept]
  cases Store.listing (st.members.listAt entry.role) entry.cursor pageSize with
  | error e => rfl
  | ok page =>
    simp only
    obtain ⟨h, i2, hrun, hfound⟩ := harvest_run_found policy
      ⟨below, (startFrom policy root token).visited⟩ entry.role (.member root.resourceId) st
      page.items ⟨[], []⟩ ⟨[], []⟩ _ rfl
    rw [Action.run_bind, hrun]
    -- the token handed back is built from the roles queued alone
    have hcheck := Action.run_check
      (maxRoles < (afterPage policy entry ⟨below, (startFrom policy root token).visited⟩ h.found
        page.next).trackedRoles) (.roleLimit root.display maxRoles)
      (h.grants, afterPage policy entry ⟨below, (startFrom policy root token).visited⟩ h.found
        page.next) i2
    refine (congrArg (fun r => (Prod.fst r).map Prod.snd) hcheck).trans ?_
    rw [hfound]
    split <;> rfl

/-- A call whose outcome, grants aside, is a token succeeded with that token. -/
theorem eq_ok_of_map_snd {r : Except Error (List Grant × TraversalToken)} {t : TraversalToken}
    (h : r.map Prod.snd = .ok t) : ∃ g, r = .ok (g, t) := by
  cases r with
  | error e => cases h
  | ok p =>
    obtain ⟨g, t'⟩ := p
    obtain rfl : t' = t := Except.ok.inj h
    exact ⟨g, rfl⟩

/-! ## Tokens handed back -/

/-- The tokens that successful calls of a traversal of the catalog of `st` from `root` hand
back, from the empty token on: each call is made with the token the call before handed back,
with any page size, on an inventory whose store holds the member lists of `st`. -/
inductive HandedBack (st : Store) (policy : VisitPolicy) (maxRoles : Nat) (root : RoleKey) :
    TraversalToken → Prop where
  /-- The first call, from the empty token. -/
  | first {size : Nat} {i : Inventory} {t : TraversalToken} :
      i.store.members = st.members →
      ((walkStep policy maxRoles root .fresh size).run i).1.map Prod.snd = .ok t →
      HandedBack st policy maxRoles root t
  /-- A call from a token handed back before. -/
  | next {t : TraversalToken} {size : Nat} {i : Inventory} {t' : TraversalToken} :
      HandedBack st policy maxRoles root t → i.store.members = st.members →
      ((walkStep policy maxRoles root t size).run i).1.map Prod.snd = .ok t' →
      HandedBack st policy maxRoles root t'

namespace Traversal

variable (w : Traversal)

/-- What the token that finishes a traversal keeps: its visited roles are reachable, in
increasing order, the root among them, and every role a visited role's rows name is
visited. -/
structure FinishedInv (t : TraversalToken) : Prop where
  /-- Visited roles are reachable. -/
  visited_reach : ∀ k ∈ t.visited, k ∈ reach w.store w.root
  /-- The visited roles are in strictly increasing order. -/
  visited_ascending : RoleKey.Ascending t.visited
  /-- The root is visited. -/
  root_visited : w.root ∈ t.visited
  /-- The visited roles are closed under membership. -/
  closed : ∀ k ∈ t.visited, ∀ c ∈ childRoles w.store k, c ∈ t.visited

/-- The invariant of a token a call starts from: the invariant of its policy, and only the
entry on top has a listing under way. -/
structure CallInv (s : TraversalToken) : Prop where
  /-- Only the entry on top has a listing under way. -/
  below_fresh : ∀ e ∈ s.pending.tail, e.cursor = none
  /-- Under `onDiscovery`, its invariant. -/
  discovery : w.policy = .onDiscovery → w.DiscoveryInv s
  /-- Under `onCompletion`, its invariant. -/
  completion : w.policy = .onCompletion → w.CompletionInv s

/-- The invariant of a token a call hands back: a finished traversal's, or a call's. -/
structure HandedInv (t : TraversalToken) : Prop where
  /-- The token finishes the traversal. -/
  finished : t.isDone = true → w.FinishedInv t
  /-- The traversal goes on from the token. -/
  going : t.isDone = false → w.CallInv t

section Call

variable {w} {s : TraversalToken} {e : FrontierEntry} {below : List FrontierEntry}

theorem CallInv.pending_ne (hs : w.CallInv s) : s.pending ≠ [] := by
  cases hpol : w.policy with
  | onDiscovery => exact (hs.discovery hpol).pending_ne
  | onCompletion => exact (hs.completion hpol).pending_ne

theorem CallInv.cursors (hs : w.CallInv s) : ∀ x ∈ s.pending, w.CursorFits x := by
  cases hpol : w.policy with
  | onDiscovery => exact (hs.discovery hpol).cursors
  | onCompletion => exact (hs.completion hpol).cursors

/-- A page that empties the stack leaves the token of a finished traversal. -/
theorem CallInv.after_finished (hs : w.CallInv s) (hP : s.pending = e :: below)
    (hd : (w.after s.visited e below (offsetOf e)).isDone = true) :
    w.FinishedInv (w.after s.visited e below (offsetOf e)) := by
  have hnp : ∀ x, x ∉ (w.after s.visited e below (offsetOf e)).pendingRoles := by
    have hnil : (w.after s.visited e below (offsetOf e)).pending = [] := by
      simpa [TraversalToken.isDone] using hd
    simp [TraversalToken.pendingRoles, hnil]
  cases hpol : w.policy with
  | onDiscovery =>
    have hi := hs.discovery hpol
    exact ⟨fun k hk => hi.after_visited_reach hpol hP hk,
      w.after_ascending hi.visited_ascending e below _,
      (DiscoveryInv.mem_after_visited hpol).mpr (.inl hi.root_visited),
      fun k hk => hi.after_closed hpol hP k hk (hnp k)⟩
  | onCompletion =>
    have hi := hs.completion hpol
    refine ⟨hi.after_visited_reach hpol hP, w.after_ascending hi.visited_ascending e below _,
      (hi.after_root_seen hpol hP).resolve_right (hnp _), fun k hk c hc => ?_⟩
    -- a role named by a visited role's rows is that role, or visited, or pending: not pending
    rcases hi.after_closed hpol hP k hk c hc with rfl | h | h
    · exact hk
    · exact h
    · exact absurd h (hnp c)

/-- A page that leaves the stack non-empty leaves a token a call starts from. -/
theorem CallInv.after_going (hfit : w.store.MembersFit) (hs : w.CallInv s)
    (hP : s.pending = e :: below)
    (hd : (w.after s.visited e below (offsetOf e)).isDone = false) :
    w.CallInv (w.after s.visited e below (offsetOf e)) := by
  have hne : (w.after s.visited e below (offsetOf e)).pending ≠ [] := by
    simpa [TraversalToken.isDone] using hd
  have hbelow : ∀ x ∈ below, x.cursor = none :=
    fun x hx => hs.below_fresh x (by rw [hP]; exact hx)
  exact ⟨below_fresh_after hbelow,
    fun hpol => (hs.discovery hpol).after hpol hfit hP hne,
    fun hpol => (hs.completion hpol).after hpol hfit hP hne⟩

/-- **One call.** A call that succeeds from a token a call starts from hands back a token of
the invariant. -/
theorem CallInv.handed (hfit : w.store.MembersFit) (hs : w.CallInv s)
    {g : List Grant} {t' : TraversalToken} (hstep : w.step s = .ok (g, t')) : w.HandedInv t' := by
  obtain ⟨e, below, hP⟩ := List.exists_cons_of_ne_nil hs.pending_ne
  rw [w.step_of_pending hfit hP (hs.cursors e (by rw [hP]; exact List.mem_cons_self))] at hstep
  obtain ⟨-, rfl, -⟩ := eq_of_checked_ok hstep
  exact ⟨hs.after_finished hP, hs.after_going hfit hP⟩

end Call

section Restart

variable {w} {t : TraversalToken}

/-- The call after a finished traversal takes the root again, over the roles visited: a token
a call starts from. -/
theorem FinishedInv.restart (h : w.FinishedInv t) (hd : t.isDone = true) :
    w.CallInv (startFrom w.policy w.root t) := by
  obtain ⟨hpend, hvis⟩ := startFrom_of_isDone w.policy w.root t hd
  -- the root is visited already, so the visited roles are those of the finished traversal
  have hV : ∀ x, x ∈ (startFrom w.policy w.root t).visited ↔ x ∈ t.visited := by
    intro x
    rw [hvis]
    constructor
    · rintro (⟨-, rfl⟩ | hx)
      · exact h.root_visited
      · exact hx
    · exact .inr
  have hroot : w.root ∈ (startFrom w.policy w.root t).visited := (hV _).mpr h.root_visited
  -- the one pending entry starts the root's listing
  have hentry : ∀ x ∈ (startFrom w.policy w.root t).pending, x = ⟨w.root, none⟩ := by
    intro x hx
    rwa [hpend, List.mem_singleton] at hx
  have hcursors : ∀ x ∈ (startFrom w.policy w.root t).pending, w.CursorFits x := by
    intro x hx
    obtain rfl := hentry x hx
    exact ⟨none, rfl, by simp⟩
  have hreach : ∀ k ∈ (startFrom w.policy w.root t).visited, k ∈ reach w.store w.root :=
    fun k hk => h.visited_reach k ((hV k).mp hk)
  have hclosed : ∀ k ∈ (startFrom w.policy w.root t).visited, ∀ c ∈ childRoles w.store k,
      c ∈ (startFrom w.policy w.root t).visited :=
    fun k hk c hc => (hV c).mpr (h.closed k ((hV k).mp hk) c hc)
  have hasc := startFrom_ascending w.policy w.root t h.visited_ascending
  refine ⟨by simp [hpend], fun _ => ?_, fun _ => ?_⟩
  · exact { pending_ne := by simp [hpend]
            cursors := hcursors
            pending_visited := by
              intro x hx
              obtain rfl := hentry x hx
              exact hroot
            pending_nodup := by simp [TraversalToken.pendingRoles, hpend]
            visited_reach := hreach
            visited_ascending := hasc
            root_visited := hroot
            closed := fun k hk _ => hclosed k hk
            read_closed := by
              intro x hx m hm
              obtain rfl := hentry x hx
              simp at hm }
  · exact { pending_ne := by simp [hpend]
            cursors := hcursors
            below_fresh := by simp [hpend]
            pending_reach := by
              intro k hk
              simp only [TraversalToken.pendingRoles, hpend, List.map_cons, List.map_nil,
                List.mem_singleton] at hk
              subst hk
              exact root_mem_reach _ _
            visited_reach := hreach
            visited_ascending := hasc
            root_seen := .inl hroot
            closed := fun k hk c hc => .inr (.inl (hclosed k hk c hc))
            top_read := by
              intro x below' hP m hm
              rw [hpend, List.cons.injEq] at hP
              obtain ⟨rfl, -⟩ := hP
              simp at hm
            settled := by
              rw [hpend]
              exact ⟨fun _ c hc => .inr (.inl (hclosed _ hroot c hc)), trivial⟩ }

/-- A call from a token handed back starts from a token of the invariant. -/
theorem HandedInv.callInv_startFrom (h : w.HandedInv t) :
    w.CallInv (startFrom w.policy w.root t) := by
  cases hd : t.isDone
  · rw [startFrom_of_not_isDone _ _ _ hd]
    exact h.going hd
  · exact (h.finished hd).restart hd

end Restart

section PageSize

variable {w} {s t : TraversalToken} (n : Nat)

/-! The invariants speak of the catalog, the policy and the root, never of the page size, so
each call of a traversal may ask for its own. -/

theorem FinishedInv.pageSize (h : w.FinishedInv t) : { w with pageSize := n }.FinishedInv t :=
  ⟨h.1, h.2, h.3, h.4⟩

theorem CallInv.pageSize (h : w.CallInv s) : { w with pageSize := n }.CallInv s := by
  refine ⟨h.below_fresh, fun hpol => ?_, fun hpol => ?_⟩
  · have hi := h.discovery hpol
    exact ⟨hi.1, hi.2, hi.3, hi.4, hi.5, hi.6, hi.7, hi.8, hi.9⟩
  · have hi := h.completion hpol
    exact ⟨hi.1, hi.2, hi.3, hi.4, hi.5, hi.6, hi.7, hi.8, hi.9, hi.10⟩

theorem HandedInv.pageSize (h : w.HandedInv t) : { w with pageSize := n }.HandedInv t :=
  ⟨fun hd => (h.finished hd).pageSize n, fun hd => (h.going hd).pageSize n⟩

end PageSize

/-- The first call starts from a token of the invariant. -/
theorem callInv_start : w.CallInv (startFrom w.policy w.root .fresh) := by
  obtain hpol | hpol : w.policy = .onDiscovery ∨ w.policy = .onCompletion := by
    cases w.policy <;> simp
  · rw [startFrom_fresh_discovery w hpol]
    exact ⟨by simp, fun _ => w.discoveryInv_start,
      fun h => absurd (hpol.symm.trans h) (by decide)⟩
  · rw [startFrom_fresh_completion w hpol]
    exact ⟨by simp, fun h => absurd (hpol.symm.trans h) (by decide),
      fun _ => w.completionInv_start⟩

/-- **A run.** A call from a token handed back, or from the empty token, that succeeds hands
back a token of the invariant. -/
theorem HandedInv.step {w : Traversal} (hfit : w.store.MembersFit) {t t' : TraversalToken}
    (h : t = .fresh ∨ w.HandedInv t) {g : List Grant} (hstep : w.step t = .ok (g, t')) :
    w.HandedInv t' := by
  have hstart : w.CallInv (startFrom w.policy w.root t) := by
    rcases h with rfl | h
    · exact w.callInv_start
    · exact h.callInv_startFrom
  exact hstart.handed hfit (by rw [w.step_startFrom]; exact hstep)

end Traversal

/-- The settled shape of a stack, read at one of its entries: an entry whose role is visited
has each role its rows name visited, its own, or listed by an entry above it. -/
theorem Settled.at_entry {st : Store} {V A : List RoleKey} {above below : List FrontierEntry}
    {e : FrontierEntry} (h : Settled st V A (above ++ e :: below)) (hv : e.role ∈ V) :
    ∀ c ∈ childRoles st e.role,
      c = e.role ∨ c ∈ V ∨ c ∈ (above.map (·.role)).reverse ++ A :=
  (Settled.append.mp h).2.1 hv

/-- Every token handed back is one of the invariant, the page sizes of the calls aside. -/
theorem HandedBack.handedInv {st : Store} (hfit : st.MembersFit) {policy : VisitPolicy}
    {maxRoles : Nat} {root : RoleKey} {t : TraversalToken}
    (h : HandedBack st policy maxRoles root t) :
    (⟨st, policy, maxRoles, root, 0⟩ : Traversal).HandedInv t := by
  -- the invariant does not mention the page size, so each call may ask its own
  induction h with
  | @first size i t hmem hrun =>
    rw [walkStep_run_token hmem] at hrun
    obtain ⟨g, hstep⟩ := eq_ok_of_map_snd hrun
    have hstep' : Traversal.step ⟨st, policy, maxRoles, root, size⟩ .fresh = .ok (g, t) := hstep
    exact (Traversal.HandedInv.step hfit (.inl rfl) hstep').pageSize 0
  | @next t size i t' _ hmem hrun ih =>
    rw [walkStep_run_token hmem] at hrun
    obtain ⟨g, hstep⟩ := eq_ok_of_map_snd hrun
    have hstep' : Traversal.step ⟨st, policy, maxRoles, root, size⟩ t = .ok (g, t') := hstep
    exact (Traversal.HandedInv.step hfit (.inr (ih.pageSize size)) hstep').pageSize 0

/-- **The shape of every token.** Every token that successful calls of a traversal from `root`
hand back, from the empty token on, over a catalog whose member lists fit their types: only
the entry on top of the stack has a listing under way, and every pending or visited role is
reachable from the root. Under `onDiscovery` the root and every pending role are visited, and
no role is pending twice; under `onCompletion` an entry whose role is visited has each role
its rows name visited, or listed by an entry above it. -/
theorem handedBack_shape {st : Store} (hfit : st.MembersFit) {policy : VisitPolicy}
    {maxRoles : Nat} {root : RoleKey} {t : TraversalToken}
    (h : HandedBack st policy maxRoles root t) :
    (∀ e ∈ t.pending.tail, e.cursor = none) ∧
    (∀ e ∈ t.pending, e.role ∈ reach st root) ∧ (∀ k ∈ t.visited, k ∈ reach st root) ∧
    (policy = .onDiscovery →
      root ∈ t.visited ∧ (∀ e ∈ t.pending, e.role ∈ t.visited) ∧ t.pendingRoles.Nodup) ∧
    (policy = .onCompletion → ∀ above e below, t.pending = above ++ e :: below →
      e.role ∈ t.visited → ∀ c ∈ childRoles st e.role, c ∈ t.visited ∨ c ∈ above.map (·.role)) := by
  have hinv := h.handedInv hfit
  cases hd : t.isDone
  · -- the traversal goes on: the invariant of its policy
    have hc := hinv.going hd
    have hpend : ∀ e ∈ t.pending, e.role ∈ reach st root := by
      intro e he
      cases hpol : policy with
      | onDiscovery =>
        have hi := hc.discovery hpol
        exact hi.visited_reach _ (hi.pending_visited e he)
      | onCompletion =>
        exact (hc.completion hpol).pending_reach _ (List.mem_map.mpr ⟨e, he, rfl⟩)
    have hvis : ∀ k ∈ t.visited, k ∈ reach st root := by
      cases hpol : policy with
      | onDiscovery => exact (hc.discovery hpol).visited_reach
      | onCompletion => exact (hc.completion hpol).visited_reach
    refine ⟨hc.below_fresh, hpend, hvis, fun hpol => ?_, fun hpol => ?_⟩
    · have hi := hc.discovery hpol
      exact ⟨hi.root_visited, hi.pending_visited, hi.pending_nodup⟩
    · intro above e below hP hv c hcr
      have hset := (hc.completion hpol).settled
      rw [hP] at hset
      rcases hset.at_entry hv c hcr with rfl | hcv | hca
      · exact .inl hv
      · exact .inl hcv
      · exact .inr (by simpa using hca)
  · -- the traversal is finished: nothing is pending
    have hf := hinv.finished hd
    have hnil : t.pending = [] := by simpa [TraversalToken.isDone] using hd
    refine ⟨by simp [hnil], by simp [hnil], hf.visited_reach, fun _ => ?_, fun _ => ?_⟩
    · exact ⟨hf.root_visited, by simp [hnil], by simp [TraversalToken.pendingRoles, hnil]⟩
    · intro above e below hP
      rw [hnil] at hP
      simp at hP

/-- A diamond with a role queued twice: the root names roles 2 and 3, role 2 names role 3
again, and role 3 names role 4. After three calls under `onCompletion` role 3 is visited while
an earlier entry of it is still pending, below the entry of role 4 that its row named. -/
theorem handedBack_shape_requeued :
    let st : Store := { Store.empty with
      members := ⟨[(.server ⟨1⟩, [⟨⟨2⟩, "b", "R"⟩, ⟨⟨3⟩, "c", "R"⟩]),
        (.server ⟨2⟩, [⟨⟨3⟩, "c", "R"⟩]), (.server ⟨3⟩, [⟨⟨4⟩, "d", "R"⟩]),
        (.server ⟨4⟩, [⟨⟨5⟩, "e", "U"⟩])]⟩ }
    let t₃ : TraversalToken :=
      ⟨[⟨.server ⟨4⟩, none⟩, ⟨.server ⟨3⟩, none⟩], [.server ⟨1⟩, .server ⟨2⟩, .server ⟨3⟩]⟩
    (st.MembersFit ∧ HandedBack st .onCompletion 10 (.server ⟨1⟩) t₃) ∧
    (∀ e ∈ t₃.pending.tail, e.cursor = none) ∧
    (∀ e ∈ t₃.pending, e.role ∈ reach st (.server ⟨1⟩)) ∧
    (∀ k ∈ t₃.visited, k ∈ reach st (.server ⟨1⟩)) ∧
    (VisitPolicy.onCompletion = .onDiscovery → .server ⟨1⟩ ∈ t₃.visited ∧
      (∀ e ∈ t₃.pending, e.role ∈ t₃.visited) ∧ t₃.pendingRoles.Nodup) ∧
    (VisitPolicy.onCompletion = .onCompletion → ∀ above e below, t₃.pending = above ++ e :: below →
      e.role ∈ t₃.visited → ∀ c ∈ childRoles st e.role, c ∈ t₃.visited ∨ c ∈ above.map (·.role)) := by
  intro st t₃
  let i : Inventory := ⟨st, .empty 0⟩
  let t₁ : TraversalToken := ⟨[⟨.server ⟨2⟩, none⟩, ⟨.server ⟨3⟩, none⟩], [.server ⟨1⟩]⟩
  let t₂ : TraversalToken :=
    ⟨[⟨.server ⟨3⟩, none⟩, ⟨.server ⟨3⟩, none⟩], [.server ⟨1⟩, .server ⟨2⟩]⟩
  have hfit : st.MembersFit := Store.MembersFit.of_rows (by decide)
  have hmem : i.store.members = st.members := rfl
  have hrun₁ : ((walkStep .onCompletion 10 (.server ⟨1⟩) .fresh 10).run i).1.map Prod.snd =
      .ok t₁ := rfl
  have hrun₂ : ((walkStep .onCompletion 10 (.server ⟨1⟩) t₁ 10).run i).1.map Prod.snd =
      .ok t₂ := rfl
  have hrun₃ : ((walkStep .onCompletion 10 (.server ⟨1⟩) t₂ 10).run i).1.map Prod.snd =
      .ok t₃ := rfl
  have h₃ : HandedBack st .onCompletion 10 (.server ⟨1⟩) t₃ :=
    .next (.next (.first hmem hrun₁) hmem hrun₂) hmem hrun₃
  exact ⟨⟨hfit, h₃⟩, handedBack_shape hfit h₃⟩

end AccessReview
